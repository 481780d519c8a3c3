import Disruptor.Barrier.Signalling

/-!
# No lost wake-up

A consumer that parks has set `signalNeeded_` and has then found the cursor behind and its barrier
not alerted, all under the mutex. Whoever makes an update after that either finds `signalNeeded_`
set, or somebody else who has found it set is still to notify; and nobody notifies before the
consumer has parked, since the mutex is taken.
-/

namespace Disruptor.Signalling

open Disruptor.Core

variable {C S : Type}

/-- The consumer holds the mutex. -/
def ConsumerHolds : Option (Int × WaitPc) → Prop
  | some (_, .loopCondition) | some (_, .storeSignalNeeded) | some (_, .recheck)
  | some (_, .checkAlert) | some (_, .wait) | some (_, .unlock _) => True
  | _ => False

/-- The thread holds the mutex. -/
def Holds : ∀ t : Thread C S, Local C S t → Prop
  | .consumer _ => ConsumerHolds
  | .signaller _ => fun pc => pc = .notify ∨ pc = .unlock

/-- The next thing the thread does with the condition variable is to notify. -/
def SignalPc.Notifies (pc : SignalPc) : Prop := pc = .lock ∨ pc = .notify

instance (pc : SignalPc) : Decidable pc.Notifies := inferInstanceAs (Decidable (_ ∨ _))

/-- The thread has made an update, and what it does about it depends on `signalNeeded_`. -/
def SignalPc.Announces (pc : SignalPc) : Prop := pc = .updated ∨ pc = .exchange

instance (pc : SignalPc) : Decidable pc.Announces := inferInstanceAs (Decidable (_ ∨ _))

/-- A thread that signals will notify. -/
def Strategy.Signals (strategy : Strategy) (s : Shared C S) : Prop :=
  strategy = .Blocking ∨ s.signalNeeded = true

/-- A thread is about to notify. -/
def Notifying (cfg : Config C S) : Prop := ∃ t : S, (cfg.threads (.signaller t)).Notifies

/-- After the next update a thread will notify. -/
def Armed (strategy : Strategy) (cfg : Config C S) : Prop :=
  strategy.Signals cfg.shared ∨ Notifying cfg

/-- A thread has made an update and will notify. -/
def Pending (strategy : Strategy) (cfg : Config C S) : Prop :=
  strategy.Signals cfg.shared ∧ (∃ t : S, (cfg.threads (.signaller t)).Announces) ∨ Notifying cfg

/-- The consumer is between its last step before it looks at the cursor and the end of the wait. -/
def Committed (parked : Bool) : WaitPc → Prop
  | .recheck | .checkAlert | .wait => True
  | .waiting => parked = true
  | _ => False

/-- The consumer found the cursor behind, and has not looked at it since. -/
def FoundBehind (parked : Bool) : WaitPc → Prop
  | .checkAlert | .wait => True
  | .waiting => parked = true
  | _ => False

/-- The consumer found its barrier not alerted, and has not looked at it since. -/
def FoundQuiet (parked : Bool) : WaitPc → Prop
  | .wait => True
  | .waiting => parked = true
  | _ => False

lemma FoundBehind.committed {parked : Bool} {pc : WaitPc} (h : FoundBehind parked pc) :
    Committed parked pc := by
  cases pc <;> first | exact h | trivial

lemma FoundQuiet.committed {parked : Bool} {pc : WaitPc} (h : FoundQuiet parked pc) :
    Committed parked pc := by
  cases pc <;> first | exact h | trivial

/-- What the invariant says of one consumer. -/
structure Covered (strategy : Strategy) (cfg : Config C S) (c : C) (sequence : Int) (pc : WaitPc) :
    Prop where
  armed : Committed (cfg.shared.monitor.parked (.consumer c)) pc → Armed strategy cfg
  reached : FoundBehind (cfg.shared.monitor.parked (.consumer c)) pc →
    sequence ≤ cfg.shared.cursor → Pending strategy cfg
  alerted : FoundQuiet (cfg.shared.monitor.parked (.consumer c)) pc →
    cfg.shared.alerted c = true → Pending strategy cfg

structure Inv (strategy : Strategy) (cfg : Config C S) : Prop where
  held : cfg.shared.monitor.HeldBy fun t => Holds t (cfg.threads t)
  covered : ∀ c sequence pc, cfg.threads (.consumer c) = some (sequence, pc) →
    Covered strategy cfg c sequence pc
  /-- Only one of the strategies has the exchange. -/
  exchange : ∀ t, cfg.threads (.signaller t) = .exchange → strategy = .LiteBlocking

section

variable [DecidableEq C] [DecidableEq S] {strategy : Strategy} {cfg : Config C S} {s' : Shared C S}
  {c : C} {t : S}

/-! ### Steps of a consumer -/

lemma holds_update {u : Thread C S} {l : Local C S u} (h : Holds u l ↔ Holds u (cfg.threads u))
    (v : Thread C S) :
    Holds v (Function.update cfg.threads u l v) ↔ Holds v (cfg.threads v) := by
  by_cases hv : v = u
  · subst hv
    rwa [Function.update_self]
  · rw [Function.update_of_ne hv]

/-- Who signals does not depend on where the consumers are. -/
lemma armed_consumer {l : Option (Int × WaitPc)} :
    Armed strategy ⟨s', Function.update cfg.threads (.consumer c) l⟩ ↔
      Armed strategy ⟨s', cfg.threads⟩ := by
  simp [Armed, Notifying]

lemma pending_consumer {l : Option (Int × WaitPc)} :
    Pending strategy ⟨s', Function.update cfg.threads (.consumer c) l⟩ ↔
      Pending strategy ⟨s', cfg.threads⟩ := by
  simp [Pending, Notifying]

omit [DecidableEq C] [DecidableEq S] in
lemma consumer_ne {d : C} (h : d ≠ c) : (Thread.consumer d : Thread C S) ≠ .consumer c := by
  rintro ⟨⟩
  exact h rfl

/-- What a step of a consumer leaves to the other threads. -/
structure Leaves (c : C) (s s' : Shared C S) : Prop where
  cursor : s'.cursor = s.cursor
  alerted : s'.alerted = s.alerted
  signalNeeded : s.signalNeeded = true → s'.signalNeeded = true
  parked : ∀ d, d ≠ c → s'.monitor.parked (.consumer d) = s.monitor.parked (.consumer d)

omit [DecidableEq C] [DecidableEq S] in
lemma Leaves.signals (h : Leaves c cfg.shared s') (hs : strategy.Signals cfg.shared) :
    strategy.Signals s' := by
  rcases hs with hblocking | hneeded
  · exact Or.inl hblocking
  · exact Or.inr (h.signalNeeded hneeded)

omit [DecidableEq C] [DecidableEq S] in
lemma Leaves.armed (h : Leaves c cfg.shared s') (ha : Armed strategy cfg) :
    Armed strategy ⟨s', cfg.threads⟩ := by
  rcases ha with hsignals | hnotifying
  · exact Or.inl (h.signals hsignals)
  · exact Or.inr hnotifying

omit [DecidableEq C] [DecidableEq S] in
lemma Leaves.pending (h : Leaves c cfg.shared s') (hp : Pending strategy cfg) :
    Pending strategy ⟨s', cfg.threads⟩ := by
  rcases hp with ⟨hsignals, hannounces⟩ | hnotifying
  · exact Or.inl ⟨h.signals hsignals, hannounces⟩
  · exact Or.inr hnotifying

/-- A step of a consumer keeps the invariant if it does so for that consumer. -/
lemma Inv.consumer (h : Inv strategy cfg) {l : Option (Int × WaitPc)}
    (hleaves : Leaves c cfg.shared s')
    (hheld : s'.monitor.HeldBy fun u => Holds u (Function.update cfg.threads (.consumer c) l u))
    (hcovered : ∀ sequence pc, l = some (sequence, pc) →
      Covered strategy ⟨s', cfg.threads⟩ c sequence pc) :
    Inv strategy ⟨s', Function.update cfg.threads (.consumer c) l⟩ := by
  have hall : ∀ d sequence pc,
      Function.update cfg.threads (.consumer c) l (.consumer d) = some (sequence, pc) →
        Covered strategy ⟨s', cfg.threads⟩ d sequence pc := by
    intro d sequence pc hpc
    by_cases hd : d = c
    · subst hd
      rw [Function.update_self] at hpc
      exact hcovered sequence pc hpc
    · rw [Function.update_of_ne (consumer_ne hd)] at hpc
      obtain ⟨harmed, hreached, halerted⟩ := h.covered d sequence pc hpc
      have hparked := hleaves.parked d hd
      refine ⟨?_, ?_, ?_⟩
      · intro hcommitted
        apply hleaves.armed
        apply harmed
        rwa [← hparked]
      · intro hbehind hle
        apply hleaves.pending
        apply hreached
        · rwa [← hparked]
        · rwa [← hleaves.cursor]
      · intro hquiet hflag
        apply hleaves.pending
        apply halerted
        · rwa [← hparked]
        · rwa [← hleaves.alerted]
  refine ⟨hheld, ?_, fun t ht => h.exchange t ht⟩
  intro d sequence pc hpc
  obtain ⟨harmed, hreached, halerted⟩ := hall d sequence pc hpc
  refine ⟨?_, ?_, ?_⟩
  · intro hcommitted
    exact armed_consumer.mpr (harmed hcommitted)
  · intro hbehind hle
    exact pending_consumer.mpr (hreached hbehind hle)
  · intro hquiet hflag
    exact pending_consumer.mpr (halerted hquiet hflag)

omit [DecidableEq C] [DecidableEq S] in
/-- A place of which the invariant says nothing. -/
lemma covered_of_not_committed {sequence : Int} {pc : WaitPc}
    (h : ¬ Committed (cfg.shared.monitor.parked (.consumer c)) pc) :
    Covered strategy cfg c sequence pc := by
  refine ⟨fun hcommitted => absurd hcommitted h, ?_, ?_⟩
  · intro hbehind
    cases pc <;> first | exact absurd hbehind h | exact absurd hbehind id
  · intro hquiet
    cases pc <;> first | exact absurd hquiet h | exact absurd hquiet id

omit [DecidableEq C] [DecidableEq S] in
lemma Leaves.refl (c : C) (s : Shared C S) : Leaves c s s := ⟨rfl, rfl, id, fun _ _ => rfl⟩

/-- A consumer moves on, and the shared state stays as it is. -/
lemma Inv.move (h : Inv strategy cfg) {l : Option (Int × WaitPc)}
    (hholds : ConsumerHolds l ↔ ConsumerHolds (cfg.threads (.consumer c)))
    (hcovered : ∀ sequence pc, l = some (sequence, pc) → Covered strategy cfg c sequence pc) :
    Inv strategy ⟨cfg.shared, Function.update cfg.threads (.consumer c) l⟩ :=
  h.consumer (.refl c cfg.shared) (h.held.of_iff rfl (holds_update hholds)) hcovered

/-- A consumer takes the mutex. -/
lemma Inv.take (h : Inv strategy cfg) {sequence : Int} {pc : WaitPc} {m : Monitor (Thread C S)}
    (hlock : cfg.shared.monitor.lock (.consumer c) = some m)
    (hholds : ConsumerHolds (some (sequence, pc)))
    (hcommitted : ∀ parked, ¬ Committed parked pc) :
    Inv strategy ⟨{ cfg.shared with monitor := m },
      Function.update cfg.threads (.consumer c) (some (sequence, pc))⟩ := by
  obtain ⟨hfree, rfl⟩ := Monitor.lock_eq_some.mp hlock
  refine h.consumer ⟨rfl, rfl, id, fun _ _ => rfl⟩ (h.held.take hfree rfl ?_ ?_) ?_
  · rw [Function.update_self]
    exact hholds
  · intro u hu
    rw [Function.update_of_ne hu]
  · rintro _ _ ⟨⟩
    exact covered_of_not_committed (hcommitted _)

lemma consumerStep_inv (h : Inv strategy cfg) {a : ConsumerAction} {l' : Option (Int × WaitPc)}
    (hs : consumerStep strategy c cfg.shared (cfg.threads (.consumer c)) a = some (s', l')) :
    Inv strategy ⟨s', Function.update cfg.threads (.consumer c) l'⟩ := by
  unfold consumerStep at hs
  split at hs
  · -- a call begins
    rename_i hl
    obtain ⟨rfl, rfl⟩ := Prod.mk.inj (Option.some.inj hs)
    apply h.move
    · rw [hl]
      exact Iff.rfl
    · rintro _ _ ⟨⟩
      exact covered_of_not_committed id
  · -- `checkAlert()` of the barrier
    rename_i sequence hl
    obtain ⟨rfl, rfl⟩ := Prod.mk.inj (Option.some.inj hs)
    apply h.move
    · rw [hl]
      split_ifs <;> exact Iff.rfl
    · intro n pc hpc
      split_ifs at hpc
      cases hpc
      exact covered_of_not_committed id
  · -- the first look at the cursor
    rename_i sequence hl
    obtain ⟨rfl, rfl⟩ := Prod.mk.inj (Option.some.inj hs)
    apply h.move
    · rw [hl]
      split_ifs <;> exact Iff.rfl
    · rintro _ _ ⟨⟩
      split_ifs <;> exact covered_of_not_committed id
  · -- the lock
    rename_i sequence hl
    obtain ⟨m, hlock, heq⟩ := Option.map_eq_some_iff.mp hs
    obtain ⟨rfl, rfl⟩ := Prod.mk.inj heq
    apply h.take hlock
    · cases strategy <;> trivial
    · intro parked
      cases strategy <;> exact id
  · -- the condition of the loop
    rename_i sequence hl
    obtain ⟨rfl, rfl⟩ := Prod.mk.inj (Option.some.inj hs)
    apply h.move
    · rw [hl]
      cases strategy <;> split_ifs <;> exact Iff.rfl
    · rintro _ _ ⟨⟩
      split_ifs with hbehind
      · cases strategy with
        | Blocking =>
          refine ⟨fun _ => Or.inl (Or.inl rfl), ?_, fun hquiet => absurd hquiet id⟩
          intro _ hle
          omega
        | LiteBlocking => exact covered_of_not_committed id
      · exact covered_of_not_committed id
  · -- `signalNeeded_.store(true)`
    rename_i sequence hl
    obtain ⟨rfl, rfl⟩ := Prod.mk.inj (Option.some.inj hs)
    refine h.consumer ⟨rfl, rfl, fun _ => rfl, fun _ _ => rfl⟩
      (h.held.of_iff rfl (holds_update ?_)) ?_
    · rw [hl]
      exact Iff.rfl
    · rintro _ _ ⟨⟩
      exact ⟨fun _ => Or.inl (Or.inr rfl), fun hbehind => absurd hbehind id,
        fun hquiet => absurd hquiet id⟩
  · -- the second look at the cursor
    rename_i sequence hl
    obtain ⟨rfl, rfl⟩ := Prod.mk.inj (Option.some.inj hs)
    obtain ⟨harmed, -, -⟩ := h.covered c sequence _ hl
    apply h.move
    · rw [hl]
      split_ifs <;> exact Iff.rfl
    · rintro _ _ ⟨⟩
      split_ifs with hreached
      · exact covered_of_not_committed id
      · refine ⟨fun _ => harmed trivial, ?_, fun hquiet => absurd hquiet id⟩
        intro _ hle
        exact absurd hle hreached
  · -- `checkAlert()` in the loop
    rename_i sequence hl
    obtain ⟨rfl, rfl⟩ := Prod.mk.inj (Option.some.inj hs)
    obtain ⟨harmed, hreached, -⟩ := h.covered c sequence _ hl
    apply h.move
    · rw [hl]
      split_ifs <;> exact Iff.rfl
    · rintro _ _ ⟨⟩
      split_ifs with halerted
      · exact covered_of_not_committed id
      · refine ⟨fun _ => harmed trivial, fun _ => hreached trivial, ?_⟩
        intro _ hflag
        exact absurd hflag halerted
  · -- the consumer parks
    rename_i sequence hl
    obtain ⟨rfl, rfl⟩ := Prod.mk.inj (Option.some.inj hs)
    obtain ⟨harmed, hreached, halerted⟩ := h.covered c sequence _ hl
    have hholds : Holds (.consumer c) (cfg.threads (.consumer c)) := by
      rw [hl]
      trivial
    have hleaves : Leaves c cfg.shared
        { cfg.shared with monitor := cfg.shared.monitor.park (.consumer c) } := by
      refine ⟨rfl, rfl, id, ?_⟩
      intro d hd
      exact Function.update_of_ne (consumer_ne hd) _ _
    refine h.consumer hleaves (h.held.give hholds rfl ?_ ?_) ?_
    · rw [Function.update_self]
      exact id
    · intro u hu
      rw [Function.update_of_ne hu]
    · rintro _ _ ⟨⟩
      exact ⟨fun _ => hleaves.armed (harmed trivial),
        fun _ hle => hleaves.pending (hreached trivial hle),
        fun _ hflag => hleaves.pending (halerted trivial hflag)⟩
  · -- a spurious wake-up
    rename_i sequence hl
    obtain ⟨rfl, rfl⟩ := Prod.mk.inj (Option.some.inj hs)
    have hleaves : Leaves c cfg.shared
        { cfg.shared with monitor := cfg.shared.monitor.wake (.consumer c) } := by
      refine ⟨rfl, rfl, id, ?_⟩
      intro d hd
      exact Function.update_of_ne (consumer_ne hd) _ _
    refine h.consumer hleaves (h.held.of_iff rfl (holds_update ?_)) ?_
    · rw [hl]
    · rintro _ _ ⟨⟩
      apply covered_of_not_committed
      simp [Committed, Monitor.wake]
  · -- the consumer has been woken, and takes the mutex again
    rename_i sequence hl
    split_ifs at hs with hparked
    obtain ⟨m, hlock, heq⟩ := Option.map_eq_some_iff.mp hs
    obtain ⟨rfl, rfl⟩ := Prod.mk.inj heq
    apply h.take hlock
    · trivial
    · exact fun _ => id
  · -- the lock is released
    rename_i sequence thrown hl
    obtain ⟨rfl, rfl⟩ := Prod.mk.inj (Option.some.inj hs)
    have hholds : Holds (.consumer c) (cfg.threads (.consumer c)) := by
      rw [hl]
      trivial
    refine h.consumer ⟨rfl, rfl, id, fun _ _ => rfl⟩ (h.held.give hholds rfl ?_ ?_) ?_
    · rw [Function.update_self]
      cases thrown <;> exact id
    · intro u hu
      rw [Function.update_of_ne hu]
    · intro n pc hpc
      split_ifs at hpc
      cases hpc
      exact covered_of_not_committed id
  · -- a look at the dependent sequence
    rename_i sequence availableSequence hl
    obtain ⟨rfl, rfl⟩ := Prod.mk.inj (Option.some.inj hs)
    apply h.move
    · rw [hl]
      split_ifs <;> exact Iff.rfl
    · intro n pc hpc
      split_ifs at hpc
      cases hpc
      exact covered_of_not_committed id
  · -- `checkAlert()` in the second loop
    rename_i sequence hl
    obtain ⟨rfl, rfl⟩ := Prod.mk.inj (Option.some.inj hs)
    apply h.move
    · rw [hl]
      split_ifs <;> exact Iff.rfl
    · intro n pc hpc
      split_ifs at hpc
      cases hpc
      exact covered_of_not_committed id
  · cases hs

/-! ### Steps of a publisher or an alerter -/

omit [DecidableEq C] [DecidableEq S] in
lemma signaller_ne {u : S} (h : u ≠ t) : (Thread.signaller u : Thread C S) ≠ .signaller t := by
  rintro ⟨⟩
  exact h rfl

/-- Threads other than the one that moves notify as before. -/
lemma notifying_signaller {pc : SignalPc}
    (ht : (cfg.threads (.signaller t)).Notifies → pc.Notifies) (h : Notifying cfg) :
    Notifying (⟨s', Function.update cfg.threads (.signaller t) pc⟩ : Config C S) := by
  obtain ⟨u, hu⟩ := h
  refine ⟨u, ?_⟩
  by_cases heq : u = t
  · subst heq
    simpa using ht hu
  · simpa [Function.update_of_ne (signaller_ne heq)] using hu

/-- A step of a publisher or an alerter keeps the invariant if it leaves the consumers parked, and
either changes nothing that they wait for or will see to it that they are notified. -/
lemma Inv.signaller (h : Inv strategy cfg) {pc : SignalPc}
    (hheld : s'.monitor.HeldBy fun u => Holds u (Function.update cfg.threads (.signaller t) pc u))
    (hparked : s'.monitor.parked = cfg.shared.monitor.parked)
    (harmed : Armed strategy cfg →
      Armed strategy ⟨s', Function.update cfg.threads (.signaller t) pc⟩)
    (hpending : Pending strategy cfg →
      Pending strategy ⟨s', Function.update cfg.threads (.signaller t) pc⟩)
    (hquiet : (s'.cursor = cfg.shared.cursor ∧
        ∀ c, s'.alerted c = true → cfg.shared.alerted c = true) ∨
      (Armed strategy cfg →
        Pending strategy ⟨s', Function.update cfg.threads (.signaller t) pc⟩))
    (hexchange : pc = .exchange → strategy = .LiteBlocking) :
    Inv strategy ⟨s', Function.update cfg.threads (.signaller t) pc⟩ := by
  refine ⟨hheld, ?_, ?_⟩
  · intro c sequence at' hat
    have hcovered := h.covered c sequence at' (by simpa using hat)
    refine ⟨?_, ?_, ?_⟩
    · intro hcommitted
      simp only [hparked] at hcommitted
      exact harmed (hcovered.armed hcommitted)
    · intro hbehind hle
      simp only [hparked] at hbehind
      rcases hquiet with ⟨hcursor, -⟩ | hsignal
      · simp only [hcursor] at hle
        exact hpending (hcovered.reached hbehind hle)
      · exact hsignal (hcovered.armed hbehind.committed)
    · intro hcalm hflag
      simp only [hparked] at hcalm
      rcases hquiet with ⟨-, halerted⟩ | hsignal
      · exact hpending (hcovered.alerted hcalm (halerted c hflag))
      · exact hsignal (hcovered.armed hcalm.committed)
  · intro u hu
    by_cases heq : u = t
    · subst heq
      exact hexchange (by simpa using hu)
    · exact h.exchange u (by simpa [Function.update_of_ne (signaller_ne heq)] using hu)

/-- An update: if a consumer is on its way to park, the thread that made it will notify. -/
lemma Inv.update (h : Inv strategy cfg)
    (hpc : cfg.threads (.signaller t) = .idle ∨ cfg.threads (.signaller t) = .updated)
    (hmonitor : s'.monitor = cfg.shared.monitor)
    (hneeded : s'.signalNeeded = cfg.shared.signalNeeded) :
    Inv strategy ⟨s', Function.update cfg.threads (.signaller t) .updated⟩ := by
  have hnotifies : (cfg.threads (.signaller t)).Notifies → SignalPc.updated.Notifies := by
    rcases hpc with hpc | hpc
    · rw [hpc]
      decide
    · rw [hpc]
      exact id
  have hsignals : strategy.Signals cfg.shared → strategy.Signals s' := by
    rintro (hblocking | hlite)
    · exact Or.inl hblocking
    · exact Or.inr (hneeded.trans hlite)
  have hpending : Armed strategy cfg →
      Pending strategy ⟨s', Function.update cfg.threads (.signaller t) .updated⟩ := by
    rintro (hsignal | hnotifying)
    · refine Or.inl ⟨hsignals hsignal, t, ?_⟩
      simp [SignalPc.Announces]
    · exact Or.inr (notifying_signaller hnotifies hnotifying)
  apply h.signaller
  · rw [hmonitor]
    refine h.held.of_iff rfl (holds_update ?_)
    rcases hpc with hpc | hpc
    · simp [hpc, Holds]
    · simp [hpc]
  · rw [hmonitor]
  · rintro (hsignal | hnotifying)
    · exact Or.inl (hsignals hsignal)
    · exact Or.inr (notifying_signaller hnotifies hnotifying)
  · rintro (⟨hsignal, -⟩ | hnotifying)
    · exact hpending (Or.inl hsignal)
    · exact hpending (Or.inr hnotifying)
  · exact Or.inr hpending
  · rintro ⟨⟩

/-- A step on the way from an update to the end of `signalAllWhenBlocking()`. -/
lemma Inv.proceed (h : Inv strategy cfg) {pc : SignalPc}
    (hheld : s'.monitor.HeldBy fun u => Holds u (Function.update cfg.threads (.signaller t) pc u))
    (hparked : s'.monitor.parked = cfg.shared.monitor.parked)
    (hneeded : s'.signalNeeded = cfg.shared.signalNeeded) (hcursor : s'.cursor = cfg.shared.cursor)
    (halerted : ∀ c, s'.alerted c = true → cfg.shared.alerted c = true)
    (hnotifies : (cfg.threads (.signaller t)).Notifies → pc.Notifies)
    (hannounces : (cfg.threads (.signaller t)).Announces → pc.Announces ∨ pc.Notifies)
    (hexchange : pc = .exchange → strategy = .LiteBlocking) :
    Inv strategy ⟨s', Function.update cfg.threads (.signaller t) pc⟩ := by
  have hsignals : strategy.Signals cfg.shared → strategy.Signals s' := by
    rintro (hblocking | hlite)
    · exact Or.inl hblocking
    · exact Or.inr (hneeded.trans hlite)
  apply h.signaller hheld hparked
  · rintro (hsignal | hnotifying)
    · exact Or.inl (hsignals hsignal)
    · exact Or.inr (notifying_signaller hnotifies hnotifying)
  · rintro (⟨hsignal, u, hu⟩ | hnotifying)
    · by_cases heq : u = t
      · subst heq
        rcases hannounces hu with hannounces | hnotifies
        · exact Or.inl ⟨hsignals hsignal, u, by simpa using hannounces⟩
        · exact Or.inr ⟨u, by simpa using hnotifies⟩
      · refine Or.inl ⟨hsignals hsignal, u, ?_⟩
        simpa [Function.update_of_ne (signaller_ne heq)] using hu
    · exact Or.inr (notifying_signaller hnotifies hnotifying)
  · exact Or.inl ⟨hcursor, halerted⟩
  · exact hexchange

lemma signallerStep_inv (h : Inv strategy cfg) {a : SignalAction C} {pc' : SignalPc}
    (hs : signallerStep strategy t cfg.shared (cfg.threads (.signaller t)) a = some (s', pc')) :
    Inv strategy ⟨s', Function.update cfg.threads (.signaller t) pc'⟩ := by
  unfold signallerStep at hs
  split at hs
  · rename_i hpc
    obtain ⟨rfl, rfl⟩ := Prod.mk.inj (Option.some.inj hs)
    exact h.update (Or.inl hpc) rfl rfl
  · rename_i hpc
    obtain ⟨rfl, rfl⟩ := Prod.mk.inj (Option.some.inj hs)
    exact h.update (Or.inr hpc) rfl rfl
  · rename_i hpc
    obtain ⟨rfl, rfl⟩ := Prod.mk.inj (Option.some.inj hs)
    exact h.update (Or.inl hpc) rfl rfl
  · rename_i hpc
    obtain ⟨rfl, rfl⟩ := Prod.mk.inj (Option.some.inj hs)
    exact h.update (Or.inr hpc) rfl rfl
  · -- an alert is cleared
    rename_i c hpc
    obtain ⟨rfl, rfl⟩ := Prod.mk.inj (Option.some.inj hs)
    refine h.proceed (h.held.of_iff rfl (holds_update ?_)) rfl rfl rfl ?_ ?_ ?_ ?_
    · rw [hpc]
    · intro d hd
      by_cases heq : d = c
      · subst heq
        simp at hd
      · simpa [Function.update_of_ne heq] using hd
    · rw [hpc]
      exact id
    · rw [hpc]
      decide
    · rintro ⟨⟩
  · -- `signalAllWhenBlocking()` is called
    rename_i hpc
    obtain ⟨rfl, rfl⟩ := Prod.mk.inj (Option.some.inj hs)
    refine h.proceed (h.held.of_iff rfl (holds_update ?_)) rfl rfl rfl (fun _ => id) ?_ ?_ ?_
    · rw [hpc]
      cases strategy <;> simp [Holds, Strategy.signalAllWhenBlocking]
    · rw [hpc]
      cases strategy <;> decide
    · rw [hpc]
      cases strategy <;> decide
    · cases strategy <;> decide
  · -- `signalNeeded_.exchange(false)`
    rename_i hpc
    obtain ⟨rfl, rfl⟩ := Prod.mk.inj (Option.some.inj hs)
    have hlite := h.exchange t hpc
    have hheld : cfg.shared.monitor.HeldBy fun u => Holds u (Function.update cfg.threads
        (.signaller t) (if cfg.shared.signalNeeded then .lock else .idle) u) := by
      refine h.held.of_iff rfl (holds_update ?_)
      rw [hpc]
      split_ifs <;> simp [Holds]
    have hnotifying : Armed strategy cfg → Notifying (⟨{ cfg.shared with signalNeeded := false },
        Function.update cfg.threads (.signaller t)
          (if cfg.shared.signalNeeded then .lock else .idle)⟩ : Config C S) := by
      rintro ((hblocking | hneeded) | hnotifying)
      · rw [hlite] at hblocking
        cases hblocking
      · -- this thread will notify
        refine ⟨t, ?_⟩
        simp [hneeded, SignalPc.Notifies]
      · refine notifying_signaller ?_ hnotifying
        rw [hpc]
        exact fun hnotifies => absurd hnotifies (by decide)
    refine h.signaller hheld rfl (fun harmed => Or.inr (hnotifying harmed)) ?_
      (Or.inl ⟨rfl, fun _ => id⟩) fun _ => hlite
    rintro (⟨hsignal, -⟩ | hnotify)
    · exact Or.inr (hnotifying (Or.inl hsignal))
    · exact Or.inr (hnotifying (Or.inr hnotify))
  · -- the lock
    rename_i hpc
    obtain ⟨m, hlock, heq⟩ := Option.map_eq_some_iff.mp hs
    obtain ⟨rfl, rfl⟩ := Prod.mk.inj heq
    obtain ⟨hfree, rfl⟩ := Monitor.lock_eq_some.mp hlock
    refine h.proceed (h.held.take hfree rfl ?_ ?_) rfl rfl rfl (fun _ => id) ?_ ?_ ?_
    · rw [Function.update_self]
      exact Or.inl rfl
    · intro u hu
      rw [Function.update_of_ne hu]
    · rw [hpc]
      decide
    · rw [hpc]
      decide
    · rintro ⟨⟩
  · -- `cv_.notify_all()`: all consumers that parked are woken, and no other one holds the mutex
    rename_i hpc
    obtain ⟨rfl, rfl⟩ := Prod.mk.inj (Option.some.inj hs)
    have hholds : Holds (.signaller t) (cfg.threads (.signaller t)) := Or.inl hpc
    refine ⟨h.held.of_iff rfl (holds_update ?_), ?_, ?_⟩
    · rw [hpc]
      simp [Holds]
    · intro c sequence pc hat
      have hat' : cfg.threads (.consumer c) = some (sequence, pc) := by simpa using hat
      apply covered_of_not_committed
      intro hcommitted
      have hout : ¬ Holds (.consumer c) (cfg.threads (.consumer c)) := by
        intro hholds'
        cases h.held.unique hholds hholds'
      rw [hat'] at hout
      cases pc <;> first | exact hcommitted | exact hout trivial | cases hcommitted
    · intro u hu
      by_cases heq : u = t
      · subst heq
        simp at hu
      · exact h.exchange u (by simpa [Function.update_of_ne (signaller_ne heq)] using hu)
  · -- the lock is released
    rename_i hpc
    obtain ⟨rfl, rfl⟩ := Prod.mk.inj (Option.some.inj hs)
    have hholds : Holds (.signaller t) (cfg.threads (.signaller t)) := Or.inr hpc
    refine h.proceed (h.held.give hholds rfl ?_ ?_) rfl rfl rfl (fun _ => id) ?_ ?_ ?_
    · rw [Function.update_self]
      simp [Holds]
    · intro u hu
      rw [Function.update_of_ne hu]
    · rw [hpc]
      decide
    · rw [hpc]
      decide
    · rintro ⟨⟩
  · cases hs

omit [DecidableEq C] [DecidableEq S] in
lemma inv_initial (strategy : Strategy) (cursor : Int) (alerted : C → Bool) :
    Inv strategy (initial cursor alerted : Config C S) := by
  refine ⟨?_, ?_, ?_⟩
  · intro t
    refine iff_of_false (by rintro ⟨⟩) ?_
    cases t with
    | consumer c => exact id
    | signaller t => simp [Holds, initial]
  · rintro c sequence pc ⟨⟩
  · rintro t ⟨⟩

/-- In every interleaving, a consumer that is parked when the cursor has reached what it waits for,
or its barrier is alerted, is about to be notified: a publisher or an alerter that has made its
update has not notified yet, and will. -/
theorem parked_willNotify {cursor : Int} {alerted : C → Bool}
    {as : List (Σ t, Action C S t)}
    (hr : run (pool C S strategy).next (initial cursor alerted) as = some cfg) {sequence : Int}
    (hwaiting : cfg.threads (.consumer c) = some (sequence, .waiting))
    (hparked : cfg.shared.monitor.parked (.consumer c) = true)
    (hready : sequence ≤ cfg.shared.cursor ∨ cfg.shared.alerted c = true) :
    ∃ t : S, (cfg.threads (.signaller t)).Notifies ∨
      (cfg.threads (.signaller t)).Announces ∧ strategy.Signals cfg.shared := by
  have hinv : Inv strategy cfg := by
    refine run_invariant (Inv strategy) ?_ (inv_initial strategy cursor alerted) hr
    rintro cfg ⟨t, a⟩ cfg' h hs
    obtain ⟨s', l', hstep, rfl⟩ := (pool C S strategy).next_eq_some.mp hs
    cases t with
    | consumer c => exact consumerStep_inv h hstep
    | signaller t => exact signallerStep_inv h hstep
  have hcovered := hinv.covered c sequence _ hwaiting
  have hpending : Pending strategy cfg := by
    rcases hready with hreached | halerted
    · exact hcovered.reached hparked hreached
    · exact hcovered.alerted hparked halerted
  rcases hpending with ⟨hsignals, t, hannounces⟩ | ⟨t, hnotifies⟩
  · exact ⟨t, Or.inr ⟨hannounces, hsignals⟩⟩
  · exact ⟨t, Or.inl hnotifies⟩

end

/-- One consumer parks, then a publisher advances the cursor and takes `signalNeeded_`. -/
def parkThenPublish : List (Σ t, Action Unit Bool t) :=
  ⟨.consumer (), .call 0⟩ :: List.replicate 7 ⟨.consumer (), .proceed⟩ ++
    [⟨.signaller true, .advance 0⟩, ⟨.signaller true, .proceed⟩, ⟨.signaller true, .proceed⟩,
      ⟨.signaller false, .advance 1⟩]

theorem parked_willNotify_parkThenPublish :
    ∃ cfg, run (pool Unit Bool .LiteBlocking).next (initial (-1) fun _ => false) parkThenPublish =
        some cfg ∧
      cfg.shared.monitor.parked (.consumer ()) = true ∧ cfg.shared.cursor = 1 ∧
      cfg.shared.signalNeeded = false ∧
      ∃ t : Bool, (cfg.threads (.signaller t)).Notifies ∨
        (cfg.threads (.signaller t)).Announces ∧ Strategy.LiteBlocking.Signals cfg.shared := by
  obtain ⟨cfg, hr, hwaiting, hparked, hcursor, hneeded⟩ :
      ∃ cfg, run (pool Unit Bool .LiteBlocking).next (initial (-1) fun _ => false)
          parkThenPublish = some cfg ∧
        cfg.threads (.consumer ()) = some (0, .waiting) ∧
        cfg.shared.monitor.parked (.consumer ()) = true ∧ cfg.shared.cursor = 1 ∧
        cfg.shared.signalNeeded = false := ⟨_, rfl, rfl, rfl, rfl, rfl⟩
  refine ⟨cfg, hr, hparked, hcursor, hneeded, parked_willNotify hr hwaiting hparked (Or.inl ?_)⟩
  rw [hcursor]
  decide

end Disruptor.Signalling
