import Disruptor.Core.ThreadPool
import Disruptor.Sequencer.ClaimCall

/-!
# Changing the gating list of a running sequencer

Producers call `next` and `remainingCapacity` while other threads call `addGatingSequences` and
`removeGatingSequence`. The list is exchanged by compare-exchange and the cached pointer is set to
null afterwards; a producer that has loaded the list stores its pointer in a step of its own.
-/

namespace Disruptor.Reconfiguration

open Disruptor.Core

variable {ι P T : Type}

/-- A call that changes the list. -/
inductive Update (ι : Type) where
  | addGatingSequences (sequencesToAdd : List (Option ι))
  | removeGatingSequence (sequence : ι)

section

variable [DecidableEq ι]

/-- What a call makes of the list. -/
def Update.apply (sequences : List (Option ι)) : Update ι → List (Option ι)
  | .addGatingSequences sequencesToAdd => sequences ++ sequencesToAdd
  | .removeGatingSequence sequence => sequences.filter (· ≠ some sequence)

/-- The list shows the effect of the call. -/
def Update.Shows (sequences : List (Option ι)) : Update ι → Prop
  | .addGatingSequences sequencesToAdd => ∀ seq ∈ sequencesToAdd, seq ∈ sequences
  | .removeGatingSequence sequence => some sequence ∉ sequences

omit [DecidableEq ι] in
lemma Update.shows_apply [DecidableEq ι] (sequences : List (Option ι)) (u : Update ι) :
    u.Shows (u.apply sequences) := by
  cases u with
  | addGatingSequences l => exact fun seq hseq => List.mem_append_right _ hseq
  | removeGatingSequence i => simp [Update.Shows, Update.apply]

/-- The list after the first `n` updates. -/
def listAfter (updates : List (Update ι)) (n : Nat) : List (Option ι) :=
  (updates.take n).foldl Update.apply []

lemma listAfter_append {updates : List (Update ι)} {n : Nat} (hn : n ≤ updates.length)
    (u : Update ι) : listAfter (updates ++ [u]) n = listAfter updates n := by
  rw [listAfter, List.take_append_of_le_length hn, listAfter]

lemma listAfter_concat (updates : List (Update ι)) (u : Update ι) :
    listAfter (updates ++ [u]) (updates.length + 1) =
      u.apply (listAfter updates updates.length) := by
  simp [listAfter, List.take_of_length_le]

end

/-- Where a call that changes the list is. -/
inductive UpdateCall (ι : Type) where
  | idle
  /-- Before `updater.load()`. -/
  | load (u : Update ι)
  /-- Before `cursor.getCursor()`. -/
  | readCursor (sequencesToAdd : List (Option ι)) (current : Snapshot ι)
  /-- Before `seq->set(cursorSequence)` for the sequences of `rest`. -/
  | set (sequencesToAdd : List (Option ι)) (current : Snapshot ι) (cursorSequence : Int)
      (rest : List (Option ι))
  | compareAndSet (u : Update ι) (current : Snapshot ι)
  /-- After the list `n` was installed, before the second `cursor.getCursor()`. -/
  | readCursorAgain (sequencesToAdd : List (Option ι)) (n : Nat)
  | setAgain (sequencesToAdd : List (Option ι)) (n : Nat) (cursorSequence : Int)
      (rest : List (Option ι))
  /-- Before `gatingSequencesCache_ = nullptr`, and the return; the list `n` shows the effect. -/
  | invalidate (u : Update ι) (n : Nat)

inductive UpdateAction (ι : Type) where
  | call (u : Update ι)
  | proceed (spurious : Bool)

inductive ProducerAction where
  | next (n : Int)
  | remainingCapacity
  | proceed (spurious : Bool)

/-- What the threads share. `updates` is the history of the installed lists, and `finished` the
calls that have returned, each with the number of a list that shows its effect. -/
structure Shared (ι : Type) where
  sequencer : Sequencer ι
  values : ι → Int
  updates : List (Update ι) := []
  finished : List (Update ι × Nat) := []

namespace Shared

def gating (s : Shared ι) : Gating ι := s.sequencer.gating

variable [DecidableEq ι]

/-- `seq->set(cursorSequence)`, if `seq` is not null. -/
def setSequence (s : Shared ι) (seq : Option ι) (cursorSequence : Int) : Shared ι :=
  { s with values := Gating.setAll s.values [seq] cursorSequence }

/-- A compare-exchange that succeeds. -/
def install (s : Shared ι) (u : Update ι) (current : Snapshot ι) : Shared ι :=
  { s with
    sequencer := s.sequencer.setGating
      { s.gating with gatingSequences := ⟨current.id + 1, u.apply current.sequences⟩ }
    updates := s.updates ++ [u] }

/-- `gatingSequencesCache_ = nullptr`, and the return of the call. -/
def invalidate (s : Shared ι) (u : Update ι) (n : Nat) : Shared ι :=
  { s with
    sequencer := s.sequencer.setGating { s.gating with gatingSequencesCache := none }
    finished := (u, n) :: s.finished }

end Shared

section

variable [DecidableEq ι]

/-- One step of a thread that changes the list. -/
def updateStep (s : Shared ι) : UpdateCall ι → UpdateAction ι → Option (Shared ι × UpdateCall ι)
  | .idle, .call u => some (s, .load u)
  | .load (.addGatingSequences l), .proceed _ =>
    some (s, .readCursor l s.gating.gatingSequences)
  | .load (.removeGatingSequence i), .proceed _ =>
    let oldSequences := s.gating.gatingSequences
    let numToRemove := oldSequences.sequences.count (some i)
    if numToRemove = 0 then some (s, .invalidate (.removeGatingSequence i) oldSequences.id)
    else some (s, .compareAndSet (.removeGatingSequence i) oldSequences)
  | .readCursor l current, .proceed _ => some (s, .set l current s.sequencer.getCursor l)
  | .set l current _ [], .proceed _ => some (s, .compareAndSet (.addGatingSequences l) current)
  | .set l current cursorSequence (seq :: rest), .proceed _ =>
    some (s.setSequence seq cursorSequence, .set l current cursorSequence rest)
  | .compareAndSet u current, .proceed spurious =>
    if s.gating.gatingSequences.id = current.id ∧ spurious = false then
      match u with
      | .addGatingSequences l => some (s.install u current, .readCursorAgain l (current.id + 1))
      | .removeGatingSequence _ => some (s.install u current, .invalidate u (current.id + 1))
    else some (s, .load u)
  | .readCursorAgain l n, .proceed _ => some (s, .setAgain l n s.sequencer.getCursor l)
  | .setAgain l n _ [], .proceed _ => some (s, .invalidate (.addGatingSequences l) n)
  | .setAgain l n cursorSequence (seq :: rest), .proceed _ =>
    some (s.setSequence seq cursorSequence, .setAgain l n cursorSequence rest)
  | .invalidate u n, .proceed _ => some (s.invalidate u n, .idle)
  | _, _ => none

/-- The call that a producer is in after a step. -/
def callAfter : ClaimResult (Sequencer.ClaimCall ι) → Option (Sequencer.ClaimCall ι)
  | .running call => some call
  | _ => none

/-- One step of a producer. -/
def producerStep (s : Shared ι) (l : Option (Sequencer.ClaimCall ι)) (a : ProducerAction) :
    Option (Shared ι × Option (Sequencer.ClaimCall ι)) :=
  match l, a with
  | none, .next n =>
    let r := s.sequencer.enter (.next n)
    some ({ s with sequencer := r.2 }, callAfter r.1)
  | none, .remainingCapacity =>
    let r := s.sequencer.enter .remainingCapacity
    some ({ s with sequencer := r.2 }, callAfter r.1)
  | some call, .proceed spurious =>
    (s.sequencer.callStep s.values spurious call).map fun r =>
      ({ s with sequencer := r.2 }, callAfter r.1)
  | _, _ => none

/-- Producers, threads that change the list, and the consumers, which move their sequences. -/
inductive Thread (P T : Type) where
  | producer (p : P)
  | updater (t : T)
  | consumers
  deriving DecidableEq

abbrev Local (P T ι : Type) : Thread P T → Type
  | .producer _ => Option (Sequencer.ClaimCall ι)
  | .updater _ => UpdateCall ι
  | .consumers => Unit

abbrev Action (P T ι : Type) : Thread P T → Type
  | .producer _ => ProducerAction
  | .updater _ => UpdateAction ι
  | .consumers => ι × Int

def pool : ThreadPool (Thread P T) (Shared ι) (Local P T ι) (Action P T ι) where
  step
    | .producer _ => producerStep
    | .updater _ => updateStep
    | .consumers => fun s _ a =>
      some ({ s with values := Function.update s.values a.1 a.2 }, ())

def initialLocal : ∀ t : Thread P T, Local P T ι t
  | .producer _ => none
  | .updater _ => .idle
  | .consumers => ()

/-- A new sequencer, and no thread in a call. -/
def initial (producerType : ProducerType) (b : BufferSize) (values : ι → Int) :
    ThreadPool.Config (Shared ι) (Local P T ι) :=
  ⟨{ sequencer := .initial producerType b {}, values := values }, initialLocal⟩

end

/-! ### What may go wrong, and when it does not -/

/-- No call that changes the list is in progress. -/
def Quiescent (cfg : ThreadPool.Config (Shared ι) (Local P T ι)) : Prop :=
  ∀ t, cfg.threads (.updater t) = .idle

/-- The list that a producer uses. -/
def listOf (l : Option (Sequencer.ClaimCall ι)) : Option (Snapshot ι) :=
  l.bind Sequencer.ClaimCall.list

/-- The cached pointer points to the list, or a producer inside `minimumSequence` uses it. -/
def InUse (cfg : ThreadPool.Config (Shared ι) (Local P T ι)) (snap : Snapshot ι) : Prop :=
  cfg.shared.gating.gatingSequencesCache = some snap ∨
    ∃ p, listOf (cfg.threads (.producer p)) = some snap

/-- When no call is in progress the cached pointer is null or points to the current list; and
every list in use is one that was installed, with the effect of every call that has returned.
Replaced lists are never freed here, so a scan of an old list that ends before the call stores null
counts as harmless. -/
structure Fresh [DecidableEq ι] (cfg : ThreadPool.Config (Shared ι) (Local P T ι)) : Prop where
  coherent : Quiescent cfg → cfg.shared.gating.Coherent
  lists : ∀ snap, InUse cfg snap →
    snap.sequences = listAfter cfg.shared.updates snap.id ∧
      ∀ u n, (u, n) ∈ cfg.shared.finished →
        u.Shows (listAfter cfg.shared.updates n) ∧ n ≤ snap.id

/-- When a call that changes the list returns, no producer is inside `minimumSequence` with a list
older than the one that shows the effect of the call. A producer that has scanned such a list and
left it before, while the list was still kept, does no harm. -/
def ReturnsAlone [DecidableEq ι]
    (x : Transition (ThreadPool.Config (Shared ι) (Local P T ι)) (Σ t, Action P T ι t)) : Prop :=
  ∀ t u n, x.act.1 = .updater t → x.pre.threads (.updater t) = .invalidate u n →
    ∀ p snap, listOf (x.pre.threads (.producer p)) = some snap → n ≤ snap.id

/-! ### The invariant -/

section

variable [DecidableEq ι]

/-- The list is one that was installed. -/
def Shared.IsInstalled (s : Shared ι) (snap : Snapshot ι) : Prop :=
  snap.id ≤ s.updates.length ∧ snap.sequences = listAfter s.updates snap.id

/-- The list `n` was installed, and shows the effect of the call. -/
def Shared.TookEffect (s : Shared ι) (u : Update ι) (n : Nat) : Prop :=
  n ≤ s.updates.length ∧ u.Shows (listAfter s.updates n)

/-- What a thread that changes the list knows. -/
def UpdateCall.Knows (s : Shared ι) : UpdateCall ι → Prop
  | .idle | .load _ => True
  | .readCursor _ current | .set _ current _ _ | .compareAndSet _ current =>
    s.IsInstalled current
  | .readCursorAgain l n | .setAgain l n _ _ => s.TookEffect (.addGatingSequences l) n
  | .invalidate u n => s.TookEffect u n

/-- The list whose installation has not been followed by the return of the call yet. -/
def UpdateCall.pending : UpdateCall ι → Option Nat
  | .readCursorAgain _ n | .setAgain _ n _ _ | .invalidate _ n => some n
  | _ => none

/-- What every reachable state satisfies. -/
structure Consistent (cfg : ThreadPool.Config (Shared ι) (Local P T ι)) : Prop where
  id_eq : cfg.shared.gating.gatingSequences.id = cfg.shared.updates.length
  current : cfg.shared.IsInstalled cfg.shared.gating.gatingSequences
  installed : ∀ snap, InUse cfg snap → cfg.shared.IsInstalled snap
  updaters : ∀ t, (cfg.threads (.updater t)).Knows cfg.shared
  finished : ∀ f ∈ cfg.shared.finished, cfg.shared.TookEffect f.1 f.2
  /-- The last update belongs to a call that has returned or is in progress. -/
  last : cfg.shared.updates.length = 0 ∨
    (∃ f ∈ cfg.shared.finished, f.2 = cfg.shared.updates.length) ∨
    ∃ t, (cfg.threads (.updater t)).pending = some cfg.shared.updates.length
  fresh : ∀ snap, InUse cfg snap → ∀ f ∈ cfg.shared.finished, f.2 ≤ snap.id

variable {cfg : ThreadPool.Config (Shared ι) (Local P T ι)} {s : Shared ι} {snap : Snapshot ι}
  {u : Update ι} {n : Nat}

/-- When no call is in progress, a list in use is the current one. -/
lemma Consistent.coherent (h : Consistent cfg) (hquiescent : Quiescent cfg) :
    cfg.shared.gating.Coherent := by
  cases hcache : cfg.shared.gating.gatingSequencesCache with
  | none => exact Or.inl hcache
  | some snap =>
    refine Or.inr ?_
    have huse : InUse cfg snap := Or.inl hcache
    obtain ⟨hle, hlist⟩ := h.installed snap huse
    have hid : snap.id = cfg.shared.updates.length := by
      rcases h.last with hzero | ⟨f, hf, hlast⟩ | ⟨t, ht⟩
      · omega
      · have := h.fresh snap huse f hf
        omega
      · rw [hquiescent t] at ht
        cases ht
    have hsame : snap = cfg.shared.gating.gatingSequences := by
      obtain ⟨-, hcurrent⟩ := h.current
      cases hg : cfg.shared.gating.gatingSequences with
      | mk id sequences =>
        cases snap with
        | mk id' sequences' =>
          have hideq := h.id_eq
          rw [hg] at hcurrent hideq
          simp only at hid hlist hcurrent hideq
          subst hlist hcurrent
          rw [hid, hideq]
    rw [hcache, hsame]

lemma Consistent.isFresh (h : Consistent cfg) : Fresh cfg where
  coherent := h.coherent
  lists := by
    intro snap huse
    refine ⟨(h.installed snap huse).2, ?_⟩
    intro u n hf
    exact ⟨(h.finished (u, n) hf).2, h.fresh snap huse (u, n) hf⟩

lemma Shared.IsInstalled.append (h : s.IsInstalled snap) {s' : Shared ι}
    (hs : s'.updates = s.updates ++ [u]) : s'.IsInstalled snap := by
  constructor
  · rw [hs, List.length_append]
    exact h.1.trans (Nat.le_add_right _ _)
  · rw [hs, listAfter_append h.1]
    exact h.2

lemma Shared.TookEffect.append (h : s.TookEffect u n) {s' : Shared ι} {v : Update ι}
    (hs : s'.updates = s.updates ++ [v]) : s'.TookEffect u n := by
  constructor
  · rw [hs, List.length_append]
    exact h.1.trans (Nat.le_add_right _ _)
  · rw [hs, listAfter_append h.1]
    exact h.2

lemma UpdateCall.Knows.append {call : UpdateCall ι} (h : call.Knows s) {s' : Shared ι}
    (hs : s'.updates = s.updates ++ [u]) : call.Knows s' := by
  cases call with
  | idle | load u => trivial
  | readCursor l current | set l current c rest | compareAndSet u current =>
    exact Shared.IsInstalled.append h hs
  | readCursorAgain l n | setAgain l n c rest | invalidate u n =>
    exact Shared.TookEffect.append h hs

/-! ### The kinds of step -/

section

variable {l l' : UpdateCall ι} {a : UpdateAction ι} {s' : Shared ι}

/-- The kinds of step that a thread takes that changes the list. -/
lemma updateStep_cases (hcurrent : s.IsInstalled s.gating.gatingSequences) (hl : l.Knows s)
    (hs : updateStep s l a = some (s', l')) :
    (s'.gating = s.gating ∧ s'.updates = s.updates ∧ s'.finished = s.finished ∧
      (∀ n, l.pending = some n → l'.pending = some n) ∧ l'.Knows s) ∨
    (∃ u current, l = .compareAndSet u current ∧ s.gating.gatingSequences.id = current.id ∧
      s' = s.install u current ∧ l'.pending = some (current.id + 1) ∧
      (s'.TookEffect u (current.id + 1) → l'.Knows s')) ∨
    (∃ u n, l = .invalidate u n ∧ s' = s.invalidate u n ∧ l' = .idle) := by
  unfold updateStep at hs
  split at hs
  · obtain ⟨rfl, rfl⟩ := Prod.mk.inj (Option.some.inj hs)
    exact Or.inl ⟨rfl, rfl, rfl, by rintro n ⟨⟩, trivial⟩
  · obtain ⟨rfl, rfl⟩ := Prod.mk.inj (Option.some.inj hs)
    exact Or.inl ⟨rfl, rfl, rfl, by rintro n ⟨⟩, hcurrent⟩
  · dsimp only at hs
    split_ifs at hs with hcount
    · obtain ⟨rfl, rfl⟩ := Prod.mk.inj (Option.some.inj hs)
      refine Or.inl ⟨rfl, rfl, rfl, by rintro n ⟨⟩, hcurrent.1, ?_⟩
      rw [← hcurrent.2]
      exact List.count_eq_zero.mp hcount
    · obtain ⟨rfl, rfl⟩ := Prod.mk.inj (Option.some.inj hs)
      exact Or.inl ⟨rfl, rfl, rfl, by rintro n ⟨⟩, hcurrent⟩
  · obtain ⟨rfl, rfl⟩ := Prod.mk.inj (Option.some.inj hs)
    exact Or.inl ⟨rfl, rfl, rfl, by rintro n ⟨⟩, hl⟩
  · obtain ⟨rfl, rfl⟩ := Prod.mk.inj (Option.some.inj hs)
    exact Or.inl ⟨rfl, rfl, rfl, by rintro n ⟨⟩, hl⟩
  · obtain ⟨rfl, rfl⟩ := Prod.mk.inj (Option.some.inj hs)
    exact Or.inl ⟨rfl, rfl, rfl, by rintro n ⟨⟩, hl⟩
  · rename_i u current spurious
    split_ifs at hs with hcas
    · cases u with
      | addGatingSequences l =>
        obtain ⟨rfl, rfl⟩ := Prod.mk.inj (Option.some.inj hs)
        exact Or.inr (Or.inl ⟨_, _, rfl, hcas.1, rfl, rfl, id⟩)
      | removeGatingSequence i =>
        obtain ⟨rfl, rfl⟩ := Prod.mk.inj (Option.some.inj hs)
        exact Or.inr (Or.inl ⟨_, _, rfl, hcas.1, rfl, rfl, id⟩)
    · obtain ⟨rfl, rfl⟩ := Prod.mk.inj (Option.some.inj hs)
      exact Or.inl ⟨rfl, rfl, rfl, by rintro n ⟨⟩, trivial⟩
  · obtain ⟨rfl, rfl⟩ := Prod.mk.inj (Option.some.inj hs)
    exact Or.inl ⟨rfl, rfl, rfl, fun n hn => hn, hl⟩
  · obtain ⟨rfl, rfl⟩ := Prod.mk.inj (Option.some.inj hs)
    exact Or.inl ⟨rfl, rfl, rfl, fun n hn => hn, hl⟩
  · obtain ⟨rfl, rfl⟩ := Prod.mk.inj (Option.some.inj hs)
    exact Or.inl ⟨rfl, rfl, rfl, fun n hn => hn, hl⟩
  · obtain ⟨rfl, rfl⟩ := Prod.mk.inj (Option.some.inj hs)
    exact Or.inr (Or.inr ⟨_, _, rfl, rfl, rfl⟩)
  · cases hs

/-- The last step of a call. -/
lemma updateStep_invalidate (hs : updateStep s (.invalidate u n) a = some (s', l')) :
    s' = s.invalidate u n ∧ l' = .idle := by
  cases a with
  | call u' => cases hs
  | proceed spurious =>
    obtain ⟨rfl, rfl⟩ := Prod.mk.inj (Option.some.inj hs)
    exact ⟨rfl, rfl⟩

omit [DecidableEq ι] in
lemma listOf_callAfter (r : ClaimResult (Sequencer.ClaimCall ι)) :
    listOf (callAfter r) = r.list Sequencer.ClaimCall.list := by
  cases r <;> rfl

omit [DecidableEq ι] in
/-- A producer leaves the history alone, and what it does to the lists. -/
lemma producerStep_lists {k k' : Option (Sequencer.ClaimCall ι)} {a : ProducerAction}
    (hs : producerStep s k a = some (s', k')) :
    s'.updates = s.updates ∧ s'.finished = s.finished ∧
      ListsKept s.gating s'.gating (listOf k) (listOf k') := by
  unfold producerStep at hs
  split at hs
  · rename_i n
    obtain ⟨rfl, rfl⟩ := Prod.mk.inj (Option.some.inj hs)
    rw [listOf_callAfter]
    exact ⟨rfl, rfl, Sequencer.enter_listsKept rfl⟩
  · obtain ⟨rfl, rfl⟩ := Prod.mk.inj (Option.some.inj hs)
    rw [listOf_callAfter]
    exact ⟨rfl, rfl, Sequencer.enter_listsKept rfl⟩
  · rename_i call spurious
    simp only [Option.map_eq_some_iff, Prod.mk.injEq] at hs
    obtain ⟨r, hr, rfl, rfl⟩ := hs
    rw [listOf_callAfter]
    exact ⟨rfl, rfl, Sequencer.callStep_listsKept hr⟩
  · cases hs

end

/-! ### Steps keep the invariant -/

section

variable {cfg' : ThreadPool.Config (Shared ι) (Local P T ι)}

/-- A step that leaves the history, the current list and the other threads alone. -/
lemma Consistent.of_lists (h : Consistent cfg) (hupdates : cfg'.shared.updates = cfg.shared.updates)
    (hfinished : cfg'.shared.finished = cfg.shared.finished)
    (hcurrent : cfg'.shared.gating.gatingSequences = cfg.shared.gating.gatingSequences)
    (hthreads : ∀ t, (cfg'.threads (.updater t)).Knows cfg.shared)
    (hpending : ∀ t n, (cfg.threads (.updater t)).pending = some n →
      (cfg'.threads (.updater t)).pending = some n)
    (hlists : ∀ snap, InUse cfg' snap →
      InUse cfg snap ∨ snap = cfg.shared.gating.gatingSequences) : Consistent cfg' := by
  have hinstalled : ∀ snap, cfg.shared.IsInstalled snap → cfg'.shared.IsInstalled snap := by
    intro snap hs
    simp only [Shared.IsInstalled, hupdates]
    exact hs
  refine ⟨?_, ?_, ?_, ?_, ?_, ?_, ?_⟩
  · rw [hcurrent, hupdates, h.id_eq]
  · rw [hcurrent]
    exact hinstalled _ h.current
  · intro snap huse
    rcases hlists snap huse with hold | rfl
    · exact hinstalled snap (h.installed snap hold)
    · exact hinstalled _ h.current
  · intro t
    have hknows := hthreads t
    unfold UpdateCall.Knows at hknows ⊢
    simp only [Shared.IsInstalled, Shared.TookEffect, hupdates]
    exact hknows
  · intro f hf
    simp only [Shared.TookEffect, hupdates]
    exact h.finished f (hfinished ▸ hf)
  · rw [hupdates, hfinished]
    exact h.last.imp_right fun h' => h'.imp_right fun ⟨t, ht⟩ => ⟨t, hpending t _ ht⟩
  · intro snap huse f hf
    rw [hfinished] at hf
    rcases hlists snap huse with hold | rfl
    · exact h.fresh snap hold f hf
    · rw [h.id_eq]
      exact (h.finished f hf).1

variable [DecidableEq P] [DecidableEq T]

lemma Consistent.producerStep (h : Consistent cfg) {p : P} {a : ProducerAction} {s' : Shared ι}
    {k' : Option (Sequencer.ClaimCall ι)}
    (hs : producerStep cfg.shared (cfg.threads (.producer p)) a = some (s', k')) :
    Consistent (⟨s', Function.update cfg.threads (.producer p) k'⟩ :
      ThreadPool.Config (Shared ι) (Local P T ι)) := by
  obtain ⟨hupdates, hfinished, hcurrent, hlists⟩ := producerStep_lists hs
  have hsame : ∀ t, Function.update cfg.threads (.producer p) k' (.updater t) =
      cfg.threads (.updater t) := fun t => Function.update_of_ne (by simp) _ _
  refine h.of_lists hupdates hfinished hcurrent ?_ ?_ ?_
  · intro t
    simp only [hsame]
    exact h.updaters t
  · intro t n hn
    simp only [hsame]
    exact hn
  · have hkept : ∀ snap, (s'.gating.gatingSequencesCache = some snap ∨ listOf k' = some snap) →
        InUse cfg snap ∨ snap = cfg.shared.gating.gatingSequences := by
      intro snap hsnap
      rcases hlists snap hsnap with hcache | hlist | rfl
      · exact Or.inl (Or.inl hcache)
      · exact Or.inl (Or.inr ⟨p, hlist⟩)
      · exact Or.inr rfl
    rintro snap (hcache | ⟨q, hq⟩)
    · exact hkept snap (Or.inl hcache)
    · by_cases hqp : q = p
      · subst hqp
        simp only [Function.update_self] at hq
        exact hkept snap (Or.inr hq)
      · have hother : Function.update cfg.threads (.producer p) k' (.producer q) =
            cfg.threads (.producer q) :=
          Function.update_of_ne (fun heq => hqp (Thread.producer.inj heq)) _ _
        simp only [hother] at hq
        exact Or.inl (Or.inr ⟨q, hq⟩)

/-- A step of a thread that changes the list keeps the invariant, unless it returns while a
producer uses an older list. -/
lemma Consistent.updateStep (h : Consistent cfg) {t : T} {a : UpdateAction ι} {s' : Shared ι}
    {l' : UpdateCall ι}
    (hs : updateStep cfg.shared (cfg.threads (.updater t)) a = some (s', l'))
    (halone : ∀ u n, cfg.threads (.updater t) = .invalidate u n →
      ∀ p snap, listOf (cfg.threads (.producer p)) = some snap → n ≤ snap.id) :
    Consistent (⟨s', Function.update cfg.threads (.updater t) l'⟩ :
      ThreadPool.Config (Shared ι) (Local P T ι)) := by
  have hproducers : ∀ p, Function.update cfg.threads (.updater t) l' (.producer p) =
      cfg.threads (.producer p) := fun p => Function.update_of_ne (by simp) _ _
  have hself : Function.update cfg.threads (.updater t) l' (.updater t) = l' :=
    Function.update_self _ _ _
  have hother : ∀ t', t' ≠ t → Function.update cfg.threads (.updater t) l' (.updater t') =
      cfg.threads (.updater t') :=
    fun t' ht' => Function.update_of_ne (fun heq => ht' (Thread.updater.inj heq)) _ _
  rcases updateStep_cases h.current (h.updaters t) hs with
    ⟨hgating, hupdates, hfinished, hpending, hknows⟩ |
    ⟨u, current, hl, hid, rfl, hpending, hknows⟩ | ⟨u, n, hl, rfl, rfl⟩
  · refine h.of_lists hupdates hfinished (congrArg _ hgating) ?_ ?_ ?_
    · intro t'
      by_cases ht' : t' = t
      · subst ht'
        simp only [hself]
        exact hknows
      · simp only [hother t' ht']
        exact h.updaters t'
    · intro t' n hn
      by_cases ht' : t' = t
      · subst ht'
        simp only [hself]
        exact hpending n hn
      · simp only [hother t' ht']
        exact hn
    · rintro snap (hcache | ⟨p, hp⟩)
      · rw [hgating] at hcache
        exact Or.inl (Or.inl hcache)
      · simp only [hproducers] at hp
        exact Or.inl (Or.inr ⟨p, hp⟩)
  · -- the list `current` is exchanged for the next one
    have hinstalled : cfg.shared.IsInstalled current := by
      have hknows := h.updaters t
      rw [hl] at hknows
      exact hknows
    have hlength : current.id = cfg.shared.updates.length := hid.symm.trans h.id_eq
    have hupdates : (cfg.shared.install u current).updates = cfg.shared.updates ++ [u] := rfl
    have hgating : (cfg.shared.install u current).gating =
        { cfg.shared.gating with
          gatingSequences := ⟨current.id + 1, u.apply current.sequences⟩ } :=
      Sequencer.gating_setGating _ _
    have hlist : listAfter (cfg.shared.updates ++ [u]) (current.id + 1) =
        u.apply current.sequences := by
      rw [hinstalled.2, hlength]
      exact listAfter_concat _ _
    have huse : ∀ snap, InUse (⟨cfg.shared.install u current,
        Function.update cfg.threads (.updater t) l'⟩ :
          ThreadPool.Config (Shared ι) (Local P T ι)) snap → InUse cfg snap := by
      rintro snap (hcache | ⟨p, hp⟩)
      · rw [hgating] at hcache
        exact Or.inl hcache
      · simp only [hproducers] at hp
        exact Or.inr ⟨p, hp⟩
    have heffect : (cfg.shared.install u current).TookEffect u (current.id + 1) := by
      constructor
      · rw [hupdates, List.length_append, hlength]
        exact le_rfl
      · rw [hupdates, hlist]
        exact u.shows_apply _
    refine ⟨?_, ?_, fun snap hs => (h.installed snap (huse snap hs)).append hupdates, ?_,
      fun f hf => (h.finished f hf).append hupdates, ?_, fun snap hs => h.fresh snap (huse snap hs)⟩
    · rw [hgating, hupdates, List.length_append, hlength]
      rfl
    · rw [hgating]
      constructor
      · rw [hupdates, List.length_append, hlength]
        exact le_rfl
      · rw [hupdates]
        exact hlist.symm
    · intro t'
      by_cases ht' : t' = t
      · subst ht'
        simp only [hself]
        exact hknows heffect
      · simp only [hother t' ht']
        exact (h.updaters t').append hupdates
    · refine Or.inr (Or.inr ⟨t, ?_⟩)
      simp only [hself]
      rw [hpending, hupdates, List.length_append, hlength]
      rfl
  · have heffect : cfg.shared.TookEffect u n := by
      have hknows := h.updaters t
      rw [hl] at hknows
      exact hknows
    have hgating : (cfg.shared.invalidate u n).gating =
        { cfg.shared.gating with gatingSequencesCache := none } :=
      Sequencer.gating_setGating _ _
    have huse : ∀ snap, InUse (⟨cfg.shared.invalidate u n,
        Function.update cfg.threads (.updater t) .idle⟩ :
          ThreadPool.Config (Shared ι) (Local P T ι)) snap →
        ∃ p, listOf (cfg.threads (.producer p)) = some snap := by
      rintro snap (hcache | ⟨p, hp⟩)
      · rw [hgating] at hcache
        cases hcache
      · simp only [hproducers] at hp
        exact ⟨p, hp⟩
    refine ⟨?_, ?_, fun snap hs => h.installed snap (Or.inr (huse snap hs)), ?_, ?_, ?_, ?_⟩
    · rw [hgating]
      exact h.id_eq
    · rw [hgating]
      exact h.current
    · intro t'
      by_cases ht' : t' = t
      · subst ht'
        simp only [hself]
        trivial
      · simp only [hother t' ht']
        exact h.updaters t'
    · exact List.forall_mem_cons.mpr ⟨heffect, h.finished⟩
    · rcases h.last with hzero | ⟨f, hf, hlast⟩ | ⟨t', ht'⟩
      · exact Or.inl hzero
      · exact Or.inr (Or.inl ⟨f, List.mem_cons_of_mem _ hf, hlast⟩)
      · by_cases heq : t' = t
        · subst heq
          rw [hl] at ht'
          exact Or.inr (Or.inl ⟨(u, n), List.mem_cons_self, Option.some.inj ht'⟩)
        · refine Or.inr (Or.inr ⟨t', ?_⟩)
          simp only [hother t' heq]
          exact ht'
    · intro snap hs f hf
      obtain ⟨p, hp⟩ := huse snap hs
      rcases List.mem_cons.mp hf with rfl | hf
      · exact halone u n hl p snap hp
      · exact h.fresh snap (Or.inr ⟨p, hp⟩) f hf

omit [DecidableEq P] [DecidableEq T] in
/-- A new sequencer satisfies the invariant. -/
lemma consistent_initial (producerType : ProducerType) (b : BufferSize) (values : ι → Int) :
    Consistent (initial producerType b values :
      ThreadPool.Config (Shared ι) (Local P T ι)) := by
  have hgating : (initial producerType b values :
      ThreadPool.Config (Shared ι) (Local P T ι)).shared.gating = {} := by
    cases producerType <;> rfl
  have huse : ∀ snap, ¬ InUse (initial producerType b values :
      ThreadPool.Config (Shared ι) (Local P T ι)) snap := by
    rintro snap (hcache | ⟨p, ⟨⟩⟩)
    rw [hgating] at hcache
    cases hcache
  refine ⟨?_, ?_, fun snap hs => absurd hs (huse snap), fun t => trivial, ?_, Or.inl rfl,
    fun snap hs => absurd hs (huse snap)⟩
  · rw [hgating]
    rfl
  · rw [hgating]
    exact ⟨le_rfl, rfl⟩
  · rintro f ⟨⟩

/-! ### Coherence -/

/-- In every run of producers, of threads that change the gating list and of consumers the cached
pointer and the lists in use are fresh after every step, exactly if each call that changes the
list returns while no producer is inside `minimumSequence` with an older list. -/
theorem cache_fresh_iff (producerType : ProducerType) (b : BufferSize) (values : ι → Int)
    (as : List (Σ t, Action P T ι t)) :
    (∀ x ∈ transitions pool.next (initial producerType b values) as, Fresh x.post) ↔
      ∀ x ∈ transitions pool.next (initial producerType b values) as, ReturnsAlone x := by
  refine transitions_forall_iff Consistent ?_ ?_ (consistent_initial producerType b values)
  · rintro cfg ⟨t, a⟩ cfg' h hs halone
    suffices hnext : Consistent cfg' from ⟨hnext, hnext.isFresh⟩
    obtain ⟨s', l', hstep, rfl⟩ := pool.next_eq_some.mp hs
    cases t with
    | producer p => exact h.producerStep hstep
    | updater t => exact h.updateStep hstep fun u n hl => halone t u n rfl hl
    | consumers =>
      obtain ⟨rfl, -⟩ := Prod.mk.inj (Option.some.inj hstep)
      have hsame : ∀ t : Thread P T, t ≠ .consumers →
          Function.update cfg.threads .consumers l' t = cfg.threads t :=
        fun t ht => Function.update_of_ne ht _ _
      refine h.of_lists rfl rfl rfl ?_ ?_ ?_
      · intro t
        simp only [hsame (.updater t) (by simp)]
        exact h.updaters t
      · intro t n hn
        simp only [hsame (.updater t) (by simp)]
        exact hn
      · rintro snap (hcache | ⟨p, hp⟩)
        · exact Or.inl (Or.inl hcache)
        · simp only [hsame (.producer p) (by simp)] at hp
          exact Or.inl (Or.inr ⟨p, hp⟩)
  · rintro cfg ⟨t, a⟩ cfg' h hs hfresh
    rintro t' u n ⟨⟩ hl p snap hp
    obtain ⟨s', l', hstep, rfl⟩ := pool.next_eq_some.mp hs
    have hreturn : updateStep cfg.shared (.invalidate u n) a = some (s', l') := hl ▸ hstep
    obtain ⟨rfl, rfl⟩ := updateStep_invalidate hreturn
    have hother : Function.update cfg.threads (.updater t') .idle (.producer p) =
        cfg.threads (.producer p) := Function.update_of_ne (by simp) _ _
    have huse := hfresh.lists snap (Or.inr ⟨p, by simpa only [hother] using hp⟩)
    exact (huse.2 u n List.mem_cons_self).2

end

end

/-- A producer loads the empty list; a consumer is added, and the call returns; the producer
stores the pointer to the list that it has loaded, and claims. -/
def staleStore : List (Σ t, Action Unit Unit Unit t) :=
  [⟨.producer (), .remainingCapacity⟩, ⟨.producer (), .proceed false⟩,
    ⟨.producer (), .proceed false⟩, ⟨.updater (), .call (.addGatingSequences [some ()])⟩] ++
  List.replicate 9 ⟨.updater (), .proceed false⟩ ++
  [⟨.producer (), .proceed false⟩, ⟨.producer (), .proceed false⟩, ⟨.producer (), .next 1⟩,
    ⟨.producer (), .next 1⟩, ⟨.producer (), .proceed false⟩, ⟨.producer (), .proceed false⟩,
    ⟨.producer (), .proceed false⟩]

/-- No call is in progress, and yet the cached pointer points to a list that was replaced. In a
ring of one slot the producer is granted two claims while the added consumer is at `-1`. -/
theorem staleStore_not_coherent :
    ∃ cfg, run pool.next (initial .SINGLE ⟨0, by decide⟩ fun _ => -1) staleStore = some cfg ∧
      Quiescent cfg ∧ ¬ cfg.shared.gating.Coherent ∧
      cfg.shared.finished = [(.addGatingSequences [some ()], 1)] ∧
      cfg.shared.sequencer.claimed = 1 ∧ cfg.shared.values () = -1 := by
  refine ⟨_, rfl, fun _ => rfl, ?_, rfl, rfl, rfl⟩
  rintro (⟨⟨⟩⟩ | h)
  exact absurd (congrArg (Option.map Snapshot.id) h) (by decide)

end Disruptor.Reconfiguration
