import Disruptor.Dsl.Outline

/-!
# The steps of a `Disruptor` keep the outline

One lemma per kind of step, and the outline of the system assembled from them.
-/

namespace Disruptor.Dsl

open Disruptor.Core BatchEventProcessor

variable {H X P : Type} {s s' : Shared H X}

/-! ### Producers -/

/-- A step of a producer changes the sequencer, and what was granted and published, only. -/
lemma clientStep_frame {c c' : Client X} {a : ClientAction}
    (hs : clientStep s c a = some (s', c')) :
    ∃ q granted published,
      s' = { s.setSequencer q with granted := granted, published := published } := by
  unfold Dsl.clientStep at hs
  split at hs
  · split_ifs at hs
    obtain ⟨rfl, -⟩ := Prod.mk.inj (Option.some.inj hs)
    exact ⟨_, _, _, rfl⟩
  · simp only [Option.map_eq_some_iff] at hs
    obtain ⟨r, -, heq⟩ := hs
    obtain ⟨rfl, -⟩ := Prod.mk.inj heq
    exact ⟨_, _, _, rfl⟩
  · split_ifs at hs
    · obtain ⟨rfl, -⟩ := Prod.mk.inj (Option.some.inj hs)
      exact ⟨s.sequencer, s.granted, s.published, rfl⟩
    · obtain ⟨rfl, -⟩ := Prod.mk.inj (Option.some.inj hs)
      exact ⟨s.sequencer, s.granted, s.published, rfl⟩
  · obtain ⟨rfl, -⟩ := Prod.mk.inj (Option.some.inj hs)
    exact ⟨_, _, _, rfl⟩
  · cases hs

/-- What a step of a producer does. -/
structure ClientStep (s s' : Shared H X) (c' : Client X) : Prop where
  eq : ∃ q granted published,
    s' = { s.setSequencer q with granted := granted, published := published }
  consistent : s'.sequencer.Consistent s'.values
  moves : s.sequencer.Moves s'.sequencer
  holds : c'.Holds s'
  published_le : ∀ range ∈ s'.published, range.2 ≤ s'.sequencer.getCursor
  granted : s'.granted = s.granted ∨ ∃ lo hi, s'.granted = (lo, hi) :: s.granted ∧
    ∀ i, some i ∈ s.sequencer.gatingList → hi - s.sequencer.bufferSize.size ≤ s.values i

lemma Shared.Inv.afterClaim (h : s.Inv) {q : Sequencer (ProcessorId X)}
    {r : ClaimResult (Sequencer.ClaimCall (ProcessorId X))}
    (hs : q.Consistent s.values ∧ q.Leaves s.values r ∧ s.sequencer.Moves q) :
    ClientStep s (s.afterClaim (r, q)).1 (s.afterClaim (r, q)).2 := by
  obtain ⟨hconsistent, hleaves, hmoves⟩ := hs
  have hpublished : ∀ range ∈ s.published, range.2 ≤ q.getCursor :=
    fun range hrange => (h.published_le range hrange).trans hmoves.getCursor
  cases r with
  | running call =>
    exact ⟨⟨q, s.granted, s.published, rfl⟩, hconsistent, hmoves, hleaves, hpublished, Or.inl rfl⟩
  | claimed lo hi =>
    obtain ⟨hle, hclaimed, hroom⟩ := hleaves
    refine ⟨⟨q, (lo, hi) :: s.granted, s.published, rfl⟩, hconsistent, hmoves, ⟨hle, hclaimed⟩,
      hpublished, Or.inr ⟨lo, hi, rfl, ?_⟩⟩
    rw [← hmoves.gatingList, ← hmoves.bufferSize]
    exact hroom
  | ended =>
    exact ⟨⟨q, s.granted, s.published, rfl⟩, hconsistent, hmoves, trivial, hpublished, Or.inl rfl⟩

lemma Shared.Inv.clientStep (h : s.Inv) {c c' : Client X} {a : ClientAction} (hc : c.Holds s)
    (hs : clientStep s c a = some (s', c')) : ClientStep s s' c' := by
  have hsame : ∀ c' : Client X, c'.Holds s → ClientStep s s c' := fun c' hc' =>
    ⟨⟨s.sequencer, s.granted, s.published, rfl⟩, h.consistent, Sequencer.Moves.refl _, hc',
      h.published_le, Or.inl rfl⟩
  unfold Dsl.clientStep at hs
  split at hs
  · rename_i op
    split_ifs at hs with hop
    obtain ⟨rfl, rfl⟩ := Prod.mk.inj (Option.some.inj hs)
    exact h.afterClaim (h.consistent.enter hop rfl)
  · simp only [Option.map_eq_some_iff] at hs
    obtain ⟨r, hcall, heq⟩ := hs
    obtain ⟨rfl, rfl⟩ := Prod.mk.inj heq
    exact h.afterClaim (h.consistent.callStep hc hcall)
  · split_ifs at hs
    · obtain ⟨rfl, rfl⟩ := Prod.mk.inj (Option.some.inj hs)
      exact hsame _ trivial
    · obtain ⟨rfl, rfl⟩ := Prod.mk.inj (Option.some.inj hs)
      exact hsame _ hc
  · rename_i l hi spurious
    obtain ⟨hle, hclaimed⟩ := hc
    obtain ⟨rfl, rfl⟩ := Prod.mk.inj (Option.some.inj hs)
    cases hpublish : s.sequencer.publishStep l hi with
    | mk q rest =>
      obtain ⟨range, returned⟩ := rest
      obtain ⟨hconsistent, hmoves, hrange, hgo⟩ :=
        h.consistent.publishStep hle hclaimed hpublish
      refine ⟨⟨q, s.granted, range :: s.published, rfl⟩, hconsistent, hmoves, ?_, ?_, Or.inl rfl⟩
      · cases returned with
        | true => trivial
        | false =>
          obtain ⟨hclaimed', hle'⟩ := hgo rfl
          exact ⟨hle', hclaimed'⟩
      · refine List.forall_mem_cons.mpr ⟨hrange, ?_⟩
        exact fun r hr => (h.published_le r hr).trans hmoves.getCursor
  · cases hs

lemma ClientStep.inv {c' : Client X} (hstep : ClientStep s s' c') (h : s.Inv) : s'.Inv := by
  have hconsistent := hstep.consistent
  have hpublished := hstep.published_le
  obtain ⟨q, granted, published, rfl⟩ := hstep.eq
  exact ⟨hconsistent, hpublished, h.spawned, h.attached, h.start_attached, h.wired⟩

lemma ClientStep.runs {c' : Client X} (hstep : ClientStep s s' c')
    (hstarted : s.disruptor.started = true) : s.Runs s' := by
  have hmoves := hstep.moves
  obtain ⟨q, granted, published, rfl⟩ := hstep.eq
  exact ⟨hstarted, rfl, rfl, rfl, rfl, fun _ => le_rfl, hmoves⟩

/-- A step of a producer is one that the consumers, and other producers, rely on. -/
lemma ClientStep.rely {c' : Client X} (hstep : ClientStep s s' c') {u : Thread P X}
    (hu : u ≠ .main) : Rely u s s' := by
  have hruns := hstep.runs
  obtain ⟨q, granted, published, rfl⟩ := hstep.eq
  have hnot : s.disruptor.started = false → s.disruptor.started = true → s.startValues = s.values :=
    fun hf ht => absurd (hf.symm.trans ht) (by simp)
  cases u with
  | main => exact absurd rfl hu
  | producer p => exact hruns
  | processor k => exact ⟨rfl, hnot, fun hstarted => ⟨hruns hstarted, rfl⟩⟩
  | custom x => exact ⟨hnot, fun hstarted => ⟨hruns hstarted, rfl⟩⟩

/-! ### The main thread -/

section

variable [DecidableEq H] [DecidableEq X]

/-- What a call that builds the graph does. -/
lemma buildStep_eq {l l' : Main X} {call : BuildCall H X}
    (hs : buildStep s l call = some (s', l')) :
    s.disruptor.started = false ∧ l'.pc = l.pc ∧
      (s' = s ∧ l' = l ∨
        ∃ d group, call.perform s.disruptor l.groups = some (.ok (d, group)) ∧
          s' = { s with disruptor := d, declared := call.declare s.declared l.groups group }) := by
  unfold buildStep at hs
  split_ifs at hs with hstarted
  simp only [Option.map_eq_some_iff] at hs
  obtain ⟨r, hperform, heq⟩ := hs
  cases r with
  | error e =>
    obtain ⟨rfl, rfl⟩ := Prod.mk.inj heq
    exact ⟨by simpa using hstarted, rfl, Or.inl ⟨rfl, rfl⟩⟩
  | ok r =>
    obtain ⟨rfl, rfl⟩ := Prod.mk.inj heq
    exact ⟨by simpa using hstarted, rfl, Or.inr ⟨r.1, r.2, hperform, rfl⟩⟩

lemma Shared.Inv.buildStep (h : s.Inv) {l l' : Main X} {call : BuildCall H X}
    (hs : buildStep s l call = some (s', l')) :
    s'.Inv ∧ s'.disruptor.started = false ∧ l'.pc = l.pc ∧
      ∀ k, (s'.disruptor.processors k).calls = (s.disruptor.processors k).calls := by
  obtain ⟨hstarted, hpc, ⟨rfl, -⟩ | ⟨d, group, hperform, rfl⟩⟩ := buildStep_eq hs
  · exact ⟨h, hstarted, hpc, fun _ => rfl⟩
  · obtain ⟨hready, hstarted', hcursor⟩ :=
      (kept_ready s.sequencer.getCursor).perform
        ⟨⟨h.consistent, h.attached hstarted⟩, hstarted, rfl⟩
        hperform
    refine ⟨⟨hready.consistent, ?_, fun _ => h.spawned hstarted, fun _ => hready.attached, ?_,
      BuildCall.perform_declare h.wired hperform⟩, hstarted', hpc,
      (kept_calls _).perform (fun _ => rfl) hperform⟩
    · exact fun range hrange => (h.published_le range hrange).trans hcursor.ge
    · intro ht
      exact absurd (hstarted'.symm.trans ht) (by simp)

end

/-- What a step of the main thread does, as far as the other threads are concerned: nothing, or
it changes `running_` and the alert of a processor, or creates the thread of a consumer. -/
structure LifecycleStep (s s' : Shared H X) : Prop where
  inv : s'.Inv
  started : s'.disruptor.started = s.disruptor.started
  runs : s.disruptor.started = true → s.Runs s'
  values : s'.values = s.values
  processors : ∀ k, (s'.disruptor.processors k).sequence = (s.disruptor.processors k).sequence ∧
    (s'.disruptor.processors k).calls = (s.disruptor.processors k).calls
  customs : s'.disruptor.customs = s.disruptor.customs
  granted : s'.granted = s.granted
  published : s'.published = s.published

lemma Shared.Inv.lifecycle_refl (h : s.Inv) : LifecycleStep s s :=
  ⟨h, rfl, Shared.Runs.refl, rfl, fun _ => ⟨rfl, rfl⟩, rfl, rfl, rfl⟩

@[simp] lemma values_setProcessor_self (k : Nat) (f : Fields) :
    (s.setProcessor k f).values (.created k) = f.sequence := by
  simp [Shared.values, Disruptor.values, Shared.setProcessor]

lemma values_setProcessor_of_ne {k : Nat} {f : Fields} {i : ProcessorId X} (hi : i ≠ .created k) :
    (s.setProcessor k f).values i = s.values i := by
  cases i with
  | created j =>
    have hj : j ≠ k := fun heq => hi (heq ▸ rfl)
    simp [Shared.values, Disruptor.values, Shared.setProcessor, Function.update_of_ne hj]
  | custom x => rfl

/-- Changing a processor without its sequence. -/
lemma values_setProcessor_of_eq {k : Nat} {f : Fields}
    (hf : f.sequence = (s.disruptor.processors k).sequence) :
    (s.setProcessor k f).values = s.values := by
  funext i
  by_cases hi : i = .created k
  · rw [hi, values_setProcessor_self]
    exact hf
  · exact values_setProcessor_of_ne hi

/-- `running_` and the alert of a processor change. -/
lemma Shared.Inv.setProcessor (h : s.Inv) {k : Nat} {f : Fields}
    (hsequence : f.sequence = (s.disruptor.processors k).sequence)
    (hcalls : f.calls = (s.disruptor.processors k).calls) :
    LifecycleStep s (s.setProcessor k f) := by
  have hvalues := values_setProcessor_of_eq hsequence
  refine ⟨⟨?_, h.published_le, h.spawned, ?_, h.start_attached, h.wired⟩, rfl, ?_, hvalues, ?_,
    rfl, rfl,
    rfl⟩
  · rw [hvalues]
    exact h.consistent
  · rw [hvalues]
    exact h.attached
  · intro hstarted
    exact ⟨hstarted, rfl, rfl, rfl, rfl, fun i => (congrFun hvalues i).ge, Sequencer.Moves.refl _⟩
  · intro j
    by_cases hj : j = k
    · subst hj
      simp [Shared.setProcessor, hsequence, hcalls]
    · simp [Shared.setProcessor, Function.update_of_ne hj]

lemma Shared.Inv.lifecycleStep (h : s.Inv) {pc pc' : MainPc X} (hpc : pc.Holds s)
    (hs : lifecycleStep s pc = some (s', pc')) : LifecycleStep s s' ∧ pc'.Holds s' := by
  unfold Dsl.lifecycleStep at hs
  split at hs
  · obtain ⟨rfl, rfl⟩ := Prod.mk.inj (Option.some.inj hs)
    exact ⟨h.lifecycle_refl, trivial⟩
  · rename_i info rest
    have hstarted : s.disruptor.started = true := hpc
    obtain ⟨rfl, rfl⟩ := Prod.mk.inj (Option.some.inj hs)
    refine ⟨⟨⟨h.consistent, h.published_le, ?_, h.attached, h.start_attached, h.wired⟩, rfl, ?_,
      rfl,
      fun _ => ⟨rfl, rfl⟩, rfl, rfl, rfl⟩, hstarted⟩
    · intro hf
      exact absurd (hf.symm.trans hstarted) (by simp)
    · exact fun _ => ⟨hstarted, rfl, rfl, rfl, rfl, fun _ => le_rfl, Sequencer.Moves.refl _⟩
  · obtain ⟨rfl, rfl⟩ := Prod.mk.inj (Option.some.inj hs)
    exact ⟨h.lifecycle_refl, trivial⟩
  · obtain ⟨rfl, rfl⟩ := Prod.mk.inj (Option.some.inj hs)
    exact ⟨h.lifecycle_refl, trivial⟩
  · split_ifs at hs
    · obtain ⟨rfl, rfl⟩ := Prod.mk.inj (Option.some.inj hs)
      exact ⟨h.lifecycle_refl, trivial⟩
    · obtain ⟨rfl, rfl⟩ := Prod.mk.inj (Option.some.inj hs)
      exact ⟨h.lifecycle_refl, trivial⟩
  · split_ifs at hs
    · obtain ⟨rfl, rfl⟩ := Prod.mk.inj (Option.some.inj hs)
      exact ⟨h.lifecycle_refl, trivial⟩
    · obtain ⟨rfl, rfl⟩ := Prod.mk.inj (Option.some.inj hs)
      exact ⟨h.lifecycle_refl, trivial⟩
  · obtain ⟨rfl, rfl⟩ := Prod.mk.inj (Option.some.inj hs)
    exact ⟨h.lifecycle_refl, trivial⟩
  · split at hs
    · obtain ⟨rfl, rfl⟩ := Prod.mk.inj (Option.some.inj hs)
      exact ⟨h.setProcessor rfl rfl, trivial⟩
    · obtain ⟨rfl, rfl⟩ := Prod.mk.inj (Option.some.inj hs)
      exact ⟨h.lifecycle_refl, trivial⟩
  · obtain ⟨rfl, rfl⟩ := Prod.mk.inj (Option.some.inj hs)
    exact ⟨h.setProcessor rfl rfl, trivial⟩
  · cases hs

/-- `start()` returns to the program; `shutdown()` is its last call. -/
lemma lifecycleStep_client {pc : MainPc X} {c : Client X}
    (hs : lifecycleStep s pc = some (s', .client c)) : c = .idle := by
  unfold lifecycleStep at hs
  split at hs
  case h_1 =>
    obtain ⟨-, hpc⟩ := Prod.mk.inj (Option.some.inj hs)
    exact (MainPc.client.inj hpc).symm
  case h_5 | h_6 => split_ifs at hs <;> cases hs
  case h_8 => split at hs <;> cases hs
  all_goals cases hs

lemma LifecycleStep.rely (hstep : LifecycleStep s s') {u : Thread P X} (hu : u ≠ .main) :
    Rely u s s' := by
  have hnot : s.disruptor.started = false → s'.disruptor.started = true →
      s'.startValues = s'.values := by
    intro hf ht
    rw [hstep.started, hf] at ht
    cases ht
  cases u with
  | main => exact absurd rfl hu
  | producer p => exact hstep.runs
  | processor k =>
    exact ⟨(hstep.processors k).2, hnot, fun hstarted =>
      ⟨hstep.runs hstarted, (hstep.processors k).1⟩⟩
  | custom x =>
    exact ⟨hnot, fun hstarted => ⟨hstep.runs hstarted, congrFun hstep.customs x⟩⟩

/-- What a step of a thread does for itself and for the others. -/
structure ThreadStep (t : Thread P X) (waitStrategy : WaitStrategy) (s s' : Shared H X)
    (l' : Local X t) : Prop where
  inv : s'.Inv
  holds : Holds waitStrategy t l' s'
  rely : ∀ u : Thread P X, u ≠ t → Rely u s s'

lemma Shared.Inv.start (h : s.Inv) {pc : MainPc X} (hs : s.start = (s', pc)) :
    s'.Inv ∧ pc.Holds s' ∧ ∀ u : Thread P X, u ≠ .main → Rely u s s' := by
  unfold Shared.start at hs
  split_ifs at hs with hstarted
  · obtain ⟨rfl, rfl⟩ := Prod.mk.inj hs
    exact ⟨h, trivial, fun u hu => h.lifecycle_refl.rely hu⟩
  · obtain ⟨rfl, rfl⟩ := Prod.mk.inj hs
    have hnot : s.disruptor.started = false := by simpa using hstarted
    refine ⟨⟨h.consistent, h.published_le, ?_, ?_, fun _ => h.attached hnot, h.wired⟩, rfl, ?_⟩
    · rintro ⟨⟩
    · rintro ⟨⟩
    · intro u hu
      cases u with
      | main => exact absurd rfl hu
      | producer p => exact fun ht => absurd ht hstarted
      | processor k => exact ⟨rfl, fun _ _ => rfl, fun ht => absurd ht hstarted⟩
      | custom x => exact ⟨fun _ _ => rfl, fun ht => absurd ht hstarted⟩

section

variable [DecidableEq H] [DecidableEq X]

/-- The kinds of steps of the main thread. -/
lemma mainStep_cases {l l' : Main X} {a : MainAction H X} (hs : mainStep s l a = some (s', l')) :
    (∃ call, a = .build call ∧ l.pc = .client .idle ∧ buildStep s l call = some (s', l')) ∨
    (∃ ca c c', a = .client ca ∧ l.pc = .client c ∧ clientStep s c ca = some (s', c') ∧
      l' = { l with pc := .client c' }) ∨
    (a = .start ∧ l.pc = .client .idle ∧ s' = s.start.1 ∧ l' = { l with pc := s.start.2 }) ∨
    (a = .shutdown ∧ l.pc = .client .idle ∧ s' = { s with publishedBefore := s.published } ∧
      l' = { l with pc := .hasBacklog }) ∨
    (a = .proceed ∧ ∃ pc, lifecycleStep s l.pc = some (s', pc) ∧ l' = { l with pc := pc }) := by
  unfold mainStep at hs
  cases a with
  | build call =>
    simp only at hs
    split at hs
    · rename_i hpc
      exact Or.inl ⟨call, rfl, hpc, hs⟩
    · cases hs
  | client ca =>
    simp only at hs
    split at hs
    · rename_i c hpc
      simp only [Option.map_eq_some_iff] at hs
      obtain ⟨r, hstep, heq⟩ := hs
      obtain ⟨rfl, rfl⟩ := Prod.mk.inj heq
      exact Or.inr (Or.inl ⟨ca, c, r.2, rfl, hpc, hstep, rfl⟩)
    · cases hs
  | start =>
    simp only at hs
    split at hs
    · rename_i hpc
      obtain ⟨rfl, rfl⟩ := Prod.mk.inj (Option.some.inj hs)
      exact Or.inr (Or.inr (Or.inl ⟨rfl, hpc, rfl, rfl⟩))
    · cases hs
  | shutdown =>
    simp only at hs
    split at hs
    · rename_i hpc
      obtain ⟨rfl, rfl⟩ := Prod.mk.inj (Option.some.inj hs)
      exact Or.inr (Or.inr (Or.inr (Or.inl ⟨rfl, hpc, rfl, rfl⟩)))
    · cases hs
  | proceed =>
    simp only [Option.map_eq_some_iff] at hs
    obtain ⟨r, hstep, heq⟩ := hs
    obtain ⟨rfl, rfl⟩ := Prod.mk.inj heq
    exact Or.inr (Or.inr (Or.inr (Or.inr ⟨rfl, r.2, hstep, rfl⟩)))

omit [DecidableEq H] [DecidableEq X] in
lemma Shared.Inv.shutdown (h : s.Inv) : LifecycleStep s { s with publishedBefore := s.published } :=
  ⟨⟨h.consistent, h.published_le, h.spawned, h.attached, h.start_attached, h.wired⟩, rfl,
    fun ht => ⟨ht, rfl, rfl, rfl, rfl, fun _ => le_rfl, Sequencer.Moves.refl _⟩,
    rfl, fun _ => ⟨rfl, rfl⟩, rfl, rfl, rfl⟩

lemma Shared.Inv.mainStep (h : s.Inv) {waitStrategy : WaitStrategy} {l l' : Main X}
    {a : MainAction H X} (hl : l.pc.Holds s) (hs : mainStep s l a = some (s', l')) :
    ThreadStep (P := P) .main waitStrategy s s' l' := by
  rcases mainStep_cases hs with ⟨call, -, hpc, hstep⟩ | ⟨ca, c, c', -, hpc, hstep, rfl⟩ |
    ⟨-, -, rfl, rfl⟩ | ⟨-, -, rfl, rfl⟩ | ⟨-, pc, hstep, rfl⟩
  · obtain ⟨hinv, hstarted', hpc', hcalls⟩ := h.buildStep hstep
    have hnot : s'.disruptor.started ≠ true := by simp [hstarted']
    have hnot' : s.disruptor.started ≠ true := by simp [(buildStep_eq hstep).1]
    refine ⟨hinv, ?_, ?_⟩
    · show l'.pc.Holds s'
      rw [hpc', hpc]
      trivial
    · intro u hu
      cases u with
      | main => exact absurd rfl hu
      | producer p => exact fun ht => absurd ht hnot'
      | processor k => exact ⟨hcalls k, fun _ ht => absurd ht hnot, fun ht => absurd ht hnot'⟩
      | custom x => exact ⟨fun _ ht => absurd ht hnot, fun ht => absurd ht hnot'⟩
  · rw [hpc] at hl
    have hclient := h.clientStep hl hstep
    exact ⟨hclient.inv h, hclient.holds, fun u hu => hclient.rely hu⟩
  · obtain ⟨hinv, hpc, hrely⟩ := h.start (P := P) rfl
    exact ⟨hinv, hpc, hrely⟩
  · exact ⟨h.shutdown.inv, trivial, fun u hu => h.shutdown.rely hu⟩
  · obtain ⟨hlifecycle, hpc⟩ := h.lifecycleStep hl hstep
    exact ⟨hlifecycle.inv, hpc, fun u hu => hlifecycle.rely hu⟩

end

/-! ### Other producers -/

lemma producerStep_eq {c c' : Client X} {a : ClientAction}
    (hs : producerStep s c a = some (s', c')) :
    (∃ m, s.sequencer = .multi m) ∧ s.disruptor.started = true ∧
      clientStep s c a = some (s', c') := by
  unfold producerStep at hs
  split at hs
  · cases hs
  · rename_i m hm
    split_ifs at hs with hstarted
    exact ⟨⟨m, hm⟩, hstarted, hs⟩

lemma Shared.Inv.producerStep (h : s.Inv) {waitStrategy : WaitStrategy} {p : P} {c c' : Client X}
    {a : ClientAction} (hl : Holds waitStrategy (.producer p : Thread P X) c s)
    (hs : Dsl.producerStep s c a = some (s', c')) :
    ThreadStep (.producer p) waitStrategy s s' c' := by
  obtain ⟨⟨m, hm⟩, hstarted, hstep⟩ := producerStep_eq hs
  have hc : c.Holds s := by
    rcases hl with hidle | ⟨-, -, hholds⟩
    · rw [show c = .idle from hidle]
      trivial
    · exact hholds
  have hclient := h.clientStep hc hstep
  have hruns := hclient.runs hstarted
  refine ⟨hclient.inv h, ?_, ?_⟩
  · exact Or.inr ⟨hruns.started, hruns.moves.multi m hm, hclient.holds⟩
  · intro u hu
    by_cases hmain : u = .main
    · subst hmain
      refine ⟨hstarted, hruns, ?_⟩
      intro q hq
      rw [hm] at hq
      cases hq
    · exact hclient.rely hmain

/-! ### Consumers -/

/-- A thread runs only after `start()`. -/
lemma Shared.Inv.started_of_spawned (h : s.Inv) {i : ProcessorId X} (hi : i ∈ s.spawned) :
    s.disruptor.started = true := by
  by_contra hnot
  rw [h.spawned (by simpa using hnot)] at hi
  cases hi

/-- The sequences of consumers advance. -/
lemma Shared.Inv.advance (h : s.Inv) (hstarted : s.disruptor.started = true)
    (hruns : s.Runs s') (hsequencer : s'.sequencer = s.sequencer)
    (hpublished : s'.published = s.published) (hdeclared : s'.declared = s.declared) : s'.Inv := by
  have hnot : ¬ s'.disruptor.started = false := by simp [hruns.started]
  refine ⟨?_, ?_, fun hf => absurd hf hnot, fun hf => absurd hf hnot, ?_, ?_⟩
  · rw [hsequencer]
    exact h.consistent.mono hruns.values
  · rw [hsequencer, hpublished]
    exact h.published_le
  · intro _
    rw [hruns.startValues, hruns.attachedAt]
    exact h.start_attached hstarted
  · rw [hdeclared, hruns.dependentSequences]
    exact h.wired

lemma processorStep_eq [DecidableEq X] {waitStrategy : WaitStrategy} {k : Nat}
    {processor : Nat → BatchEventProcessor} {pc pc' : RunPc (ProcessorId X)} {a : RunAction}
    (hs : processorStep processor waitStrategy s k pc a = some (s', pc')) :
    .created k ∈ s.spawned ∧ ∃ f, runStep (processor k) (s.barrier waitStrategy k) (s.view k)
      (s.disruptor.processors k) pc a = some (f, pc') ∧ s' = s.setProcessor k f := by
  unfold processorStep at hs
  split_ifs at hs with hspawned
  simp only [Option.map_eq_some_iff] at hs
  obtain ⟨⟨f, pc₁⟩, hrun, heq⟩ := hs
  obtain ⟨rfl, rfl⟩ := Prod.mk.inj heq
  exact ⟨hspawned, f, hrun, rfl⟩

/-- A step of the thread of a processor does to the others what they rely on. -/
lemma Shared.Inv.processorStep [DecidableEq X] (h : s.Inv) {waitStrategy : WaitStrategy} {k : Nat}
    {processor : Nat → BatchEventProcessor} {pc pc' : RunPc (ProcessorId X)} {a : RunAction}
    (hholds : s.disruptor.started = true → ProcessorHolds waitStrategy s k pc)
    (hs : Dsl.processorStep processor waitStrategy s k pc a = some (s', pc')) :
    ThreadStep (P := P) (.processor k) waitStrategy s s' pc' := by
  obtain ⟨hspawned, f, hrun, rfl⟩ := processorStep_eq hs
  have hstarted := h.started_of_spawned hspawned
  obtain ⟨hreached, hknows⟩ := hholds hstarted
  obtain ⟨hreached', hknows', hle⟩ :=
    runStep_knows hreached hknows hrun
  have hvalues : ∀ i, s.values i ≤ (s.setProcessor k f).values i := by
    intro i
    by_cases hi : i = .created k
    · rw [hi, values_setProcessor_self]
      exact hle
    · exact (values_setProcessor_of_ne hi).ge
  have hruns : s.Runs (s.setProcessor k f) :=
    ⟨hstarted, rfl, rfl, rfl, rfl, hvalues, Sequencer.Moves.refl _⟩
  have hself : (s.setProcessor k f).disruptor.processors k = f := by
    simp [Shared.setProcessor]
  have hnot : s.disruptor.started = false → ∀ p : Prop, p :=
    fun hf => absurd (hf.symm.trans hstarted) (by simp)
  refine ⟨h.advance hstarted hruns rfl rfl rfl, ⟨fun hf => hnot hf _, fun _ => ⟨?_, ?_⟩⟩, ?_⟩
  · rw [hself]
    exact hreached'.mono fun i _ => hvalues i
  · rw [hself]
    exact hknows'.mono fun i _ => hvalues i
  · intro u hu
    cases u with
    | main => exact ⟨hstarted, hruns, fun _ _ => rfl⟩
    | producer p => exact fun _ => hruns
    | processor j =>
      have hj : j ≠ k := fun heq => hu (heq ▸ rfl)
      have hsame : (s.setProcessor k f).disruptor.processors j = s.disruptor.processors j := by
        simp [Shared.setProcessor, Function.update_of_ne hj]
      refine ⟨?_, fun hf => hnot hf _, fun _ => ⟨hruns, ?_⟩⟩
      · rw [hsame]
      · rw [hsame]
    | custom x => exact ⟨fun hf => hnot hf _, fun _ => ⟨hruns, rfl⟩⟩

lemma values_setCustom_of_ne [DecidableEq X] {x : X} {value : Int} {i : ProcessorId X}
    (hi : i ≠ .custom x) : (s.setCustom x value).values i = s.values i := by
  cases i with
  | created k => rfl
  | custom y =>
    have hy : y ≠ x := fun heq => hi (heq ▸ rfl)
    simp [Shared.values, Disruptor.values, Shared.setCustom, Function.update_of_ne hy]

@[simp] lemma values_setCustom_self [DecidableEq X] (x : X) (value : Int) :
    (s.setCustom x value).values (.custom x) = value := by
  simp [Shared.values, Disruptor.values, Shared.setCustom]

/-- What a step of a processor of the user's own does. -/
lemma customStep_eq [DecidableEq X] {x : X} {a : CustomAction} (hs : customStep s x a = some s') :
    .custom x ∈ s.spawned ∧
      ((∃ value, s' = s.setCustom x value ∧ s.disruptor.customs x ≤ value ∧
          ∀ i ∈ s.disruptor.dependentSequences (.custom x), value ≤ s.values i) ∨
        ∃ running, s' = { s with customRunning := running }) := by
  cases a with
  | advance value =>
    simp only [customStep] at hs
    split_ifs at hs with hcond
    obtain ⟨hspawned, hle, hbehind⟩ := hcond
    obtain rfl := Option.some.inj hs
    exact ⟨hspawned, Or.inl ⟨value, rfl, hle, hbehind⟩⟩
  | setRunning running =>
    simp only [customStep] at hs
    split_ifs at hs with hspawned
    obtain rfl := Option.some.inj hs
    exact ⟨hspawned, Or.inr ⟨_, rfl⟩⟩

/-- A step of a processor of the user's own does to the others what they rely on. -/
lemma Shared.Inv.customStep [DecidableEq X] (h : s.Inv) {waitStrategy : WaitStrategy} {x : X}
    {a : CustomAction} (hholds : s.disruptor.started = true → CustomHolds s x)
    (hs : Dsl.customStep s x a = some s') :
    ThreadStep (P := P) (.custom x) waitStrategy s s' () := by
  obtain ⟨hspawned, hcase⟩ := customStep_eq hs
  have hstarted := h.started_of_spawned hspawned
  have hnot : s.disruptor.started = false → ∀ p : Prop, p :=
    fun hf => absurd (hf.symm.trans hstarted) (by simp)
  rcases hcase with ⟨value, rfl, hle, hbehind⟩ | ⟨running, rfl⟩
  · have hvalues : ∀ i, s.values i ≤ (s.setCustom x value).values i := by
      intro i
      by_cases hi : i = .custom x
      · rw [hi, values_setCustom_self]
        exact hle
      · exact (values_setCustom_of_ne hi).ge
    have hruns : s.Runs (s.setCustom x value) :=
      ⟨hstarted, rfl, rfl, rfl, rfl, hvalues, Sequencer.Moves.refl _⟩
    have hself : (s.setCustom x value).disruptor.customs x = value := by
      simp [Shared.setCustom]
    refine ⟨h.advance hstarted hruns rfl rfl rfl, fun _ => ⟨?_, ?_⟩, ?_⟩
    · rw [hself]
      exact (hholds hstarted).start_le.trans hle
    · rw [hself]
      exact Or.inr fun i hi => (hbehind i hi).trans (hvalues i)
    · intro u hu
      cases u with
      | main => exact ⟨hstarted, hruns, fun _ _ => rfl⟩
      | producer p => exact fun _ => hruns
      | processor j => exact ⟨rfl, fun hf => hnot hf _, fun _ => ⟨hruns, rfl⟩⟩
      | custom y =>
        have hy : y ≠ x := fun heq => hu (heq ▸ rfl)
        refine ⟨fun hf => hnot hf _, fun _ => ⟨hruns, ?_⟩⟩
        simp [Shared.setCustom, Function.update_of_ne hy]
  · have hruns : s.Runs { s with customRunning := running } :=
      ⟨hstarted, rfl, rfl, rfl, rfl, fun _ => le_rfl, Sequencer.Moves.refl _⟩
    refine ⟨h.advance hstarted hruns rfl rfl rfl, fun _ => (hholds hstarted).mono hruns rfl, ?_⟩
    intro u hu
    cases u with
    | main => exact ⟨hstarted, hruns, fun _ _ => rfl⟩
    | producer p => exact fun _ => hruns
    | processor j => exact ⟨rfl, fun hf => hnot hf _, fun _ => ⟨hruns, rfl⟩⟩
    | custom y => exact ⟨fun hf => hnot hf _, fun _ => ⟨hruns, rfl⟩⟩

/-! ### The outline -/

variable [DecidableEq H] [DecidableEq X] {processor : Nat → BatchEventProcessor}
  {waitStrategy : WaitStrategy}

/-- Every step of the system is one that the outline allows. -/
theorem Shared.Inv.systemStep (h : s.Inv) {t : Thread P X} {l l' : Local X t} {a : Action H X t}
    (hl : Holds waitStrategy t l s)
    (hs : (system H X P processor waitStrategy).step t s l a = some (s', l')) :
    ThreadStep t waitStrategy s s' l' := by
  cases t with
  | main => exact h.mainStep hl hs
  | producer p => exact h.producerStep hl hs
  | processor k => exact h.processorStep hl.2 hs
  | custom x =>
    simp only [system, Option.map_eq_some_iff] at hs
    obtain ⟨s₁, hstep, heq⟩ := hs
    obtain ⟨rfl, -⟩ := Prod.mk.inj heq
    exact h.customStep hl hstep

/-- The proof outline of the system. -/
def outline (H X P : Type) [DecidableEq H] [DecidableEq X] (processor : Nat → BatchEventProcessor)
    (waitStrategy : WaitStrategy) : (system H X P processor waitStrategy).Outline where
  inv := Shared.Inv
  assertion := Holds waitStrategy
  rely := Rely
  step_inv h hl hs := (h.systemStep hl hs).inv
  step_assertion h hl hs := (h.systemStep hl hs).holds
  step_rely h hl hs := (h.systemStep hl hs).rely
  stable _ _ hl hrely := hl.stable hrely

lemma initial_holds (producerType : ProducerType) (b : BufferSize) :
    (outline H X P processor waitStrategy).Holds (initial H X P producerType b) where
  shared := by
    refine ⟨Sequencer.consistent_initial producerType b _, ?_, fun _ => rfl, ?_, ?_, fun _ => rfl⟩
    · rintro range ⟨⟩
    · intro _ i
      cases i <;> exact le_rfl
    · rintro ⟨⟩
  threads := by
    intro t
    cases t with
    | main => trivial
    | producer p => exact Or.inl rfl
    | processor k => exact ⟨fun _ => rfl, by rintro ⟨⟩⟩
    | custom x => rintro ⟨⟩

/-- The outline holds before and after every step of every run. -/
theorem transitions_hold [DecidableEq P] {producerType : ProducerType} {b : BufferSize}
    {as : List (Label H X P)} :
    ∀ x ∈ transitions (system H X P processor waitStrategy).next
        (initial H X P producerType b) as,
      (outline H X P processor waitStrategy).Holds x.pre ∧
        (outline H X P processor waitStrategy).Holds x.post :=
  transitions_invariant_of_step _ (fun _ _ _ hi hs => ThreadPool.Outline.Holds.next hi hs)
    (initial_holds producerType b)

/-- The kinds of steps of the main thread, in the pool. -/
theorem main_next_cases [DecidableEq P] {c c' : Config H X P} {a : MainAction H X}
    (hs : (system H X P processor waitStrategy).next c ⟨.main, a⟩ = some c') :
    (∃ call l', a = .build call ∧ mainPc c = .client .idle ∧ mainPc c' = .client .idle ∧
      buildStep c.shared (c.threads .main) call = some (c'.shared, l')) ∨
    (∃ ca cl cl', a = .client ca ∧ mainPc c = .client cl ∧ mainPc c' = .client cl' ∧
      clientStep c.shared cl ca = some (c'.shared, cl')) ∨
    (a = .start ∧ c'.shared = c.shared.start.1 ∧ mainPc c' = c.shared.start.2) ∨
    (a = .shutdown ∧ c'.shared = { c.shared with publishedBefore := c.shared.published } ∧
      mainPc c' = .hasBacklog) ∨
    (a = .proceed ∧ lifecycleStep c.shared (mainPc c) = some (c'.shared, mainPc c')) := by
  obtain ⟨s', l', hstep, rfl⟩ := (ThreadPool.next_eq_some _).mp hs
  have hpc' : mainPc (H := H) ⟨s', Function.update c.threads .main l'⟩ = Main.pc l' :=
    mainPc_update_main s' c.threads l'
  rcases mainStep_cases hstep with ⟨call, rfl, hpc, hbuild⟩ |
    ⟨ca, cl, cl', rfl, hpc, hclient, rfl⟩ |
    ⟨rfl, -, rfl, rfl⟩ | ⟨rfl, -, rfl, rfl⟩ | ⟨rfl, pc, hlifecycle, rfl⟩
  · have hsame : Main.pc l' = Main.pc (c.threads .main) := (buildStep_eq hbuild).2.1
    exact Or.inl ⟨call, l', rfl, hpc, hpc'.trans (hsame.trans hpc), hbuild⟩
  · exact Or.inr (Or.inl ⟨ca, cl, cl', rfl, hpc, hpc', hclient⟩)
  · exact Or.inr (Or.inr (Or.inl ⟨rfl, rfl, hpc'⟩))
  · exact Or.inr (Or.inr (Or.inr (Or.inl ⟨rfl, rfl, hpc'⟩)))
  · refine Or.inr (Or.inr (Or.inr (Or.inr ⟨rfl, ?_⟩)))
    rw [hpc']
    exact hlifecycle

/-- The program calls `start()` and `shutdown()` between its other calls. -/
lemma main_next_idle [DecidableEq P] {c c' : Config H X P} {a : MainAction H X}
    (ha : a = .start ∨ a = .shutdown)
    (hs : (system H X P processor waitStrategy).next c ⟨.main, a⟩ = some c') :
    mainPc c = .client .idle := by
  obtain ⟨s', l', hstep, -⟩ := (ThreadPool.next_eq_some _).mp hs
  have hmain : mainStep c.shared (c.threads .main) a = some (s', l') := hstep
  rcases mainStep_cases hmain with ⟨call, rfl, hidle, -⟩ | ⟨ca, cl, cl', rfl, -⟩ |
    ⟨-, hidle, -⟩ | ⟨-, hidle, -⟩ | ⟨rfl, -⟩
  · exact hidle
  · simp at ha
  · exact hidle
  · exact hidle
  · simp at ha

end Disruptor.Dsl
