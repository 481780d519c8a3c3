import Disruptor.Dsl.EndOfChain
import Disruptor.Dsl.Events
import Mathlib.Data.List.Nodup

/-!
# Consumers are registered after those that they follow

A call that builds the graph makes new consumers follow registered ones. So the order of the
repository is one in which every consumer comes after those that it follows, and no chain of
dependencies leads back to where it began.
-/

namespace Disruptor.Dsl

set_option linter.dupNamespace false

open Disruptor.Core

variable {H X P : Type}

namespace ConsumerRepository

/-- The consumers, in the order in which they were registered. -/
def processors (repository : ConsumerRepository H X) : List (ProcessorId X) :=
  repository.consumerInfos.map EventProcessorInfo.eventprocessor

variable {repository : ConsumerRepository H X} {i : ProcessorId X}

@[simp] lemma mem_processors : i ∈ repository.processors ↔ repository.IsRegistered i :=
  List.mem_map

/-- Marks do not change the order. -/
@[simp] lemma processors_unMark (barrierSequences : List (ProcessorId X)) :
    (repository.unMarkEventProcessorsAsEndOfChain barrierSequences).processors =
      repository.processors := by
  apply List.ext_getElem?
  intro n
  simp only [processors, List.getElem?_map, unMarkAll_getElem?, Option.map_map]
  congr 1
  funext info
  simp only [Function.comp]
  split_ifs <;> rfl

end ConsumerRepository

namespace Disruptor

/-- Whoever a registered consumer follows is registered, and has a lower rank. -/
def Layered (d : Disruptor H X) (rank : ProcessorId X → Nat) : Prop :=
  ∀ j, d.consumerRepository.IsRegistered j →
    ∀ i, d.Follows i j → d.consumerRepository.IsRegistered i ∧ rank i < rank j

/-- Every consumer is registered after those that it follows. -/
def FollowsEarlier (d : Disruptor H X) : Prop :=
  ∀ i j, d.Follows i j → List.Sublist [i, j] d.consumerRepository.processors

variable {d d' : Disruptor H X} {i j : ProcessorId X} {rank : ProcessorId X → Nat}

lemma Layered.of_eq (h : d.Layered rank)
    (hrepository : d'.consumerRepository = d.consumerRepository)
    (hdependent : d'.dependentSequences = d.dependentSequences) : d'.Layered rank := by
  unfold Layered Follows at h ⊢
  rw [hrepository, hdependent]
  exact h

/-- Every consumer is registered once. -/
lemma Indexed.nodup (h : d.Indexed) : d.consumerRepository.processors.Nodup := by
  rw [List.nodup_iff_getElem?_ne_getElem?]
  intro m n hlt hn heq
  simp only [ConsumerRepository.processors, List.length_map, List.getElem?_map] at hn heq
  rw [List.getElem?_eq_getElem hn, List.getElem?_eq_getElem (hlt.trans hn), Option.map_some,
    Option.map_some, Option.some.injEq] at heq
  have hm := h.bySequence m _ (List.getElem?_eq_getElem (hlt.trans hn))
  rw [heq, h.bySequence n _ (List.getElem?_eq_getElem hn)] at hm
  exact hlt.ne (Option.some.inj hm).symm

section

variable [DecidableEq X]

/-- The order of the repository gives the layers. -/
lemma FollowsEarlier.layered (h : d.FollowsEarlier) (hindexed : d.Indexed) :
    d.Layered fun i => d.consumerRepository.processors.idxOf i := by
  have hnodup := hindexed.nodup
  have hordered : d.consumerRepository.processors.Pairwise fun i j =>
      d.consumerRepository.processors.idxOf i < d.consumerRepository.processors.idxOf j := by
    rw [List.pairwise_iff_getElem]
    intro m n hm hn hlt
    rwa [hnodup.idxOf_getElem, hnodup.idxOf_getElem]
  intro j _ i hfollows
  have hsublist := h i j hfollows
  refine ⟨ConsumerRepository.mem_processors.mp (hsublist.subset (by simp)), ?_⟩
  exact List.pairwise_iff_forall_sublist.mp hordered hsublist

/-- No chain of dependencies leads back. -/
lemma FollowsEarlier.acyclic (h : d.FollowsEarlier) (hindexed : d.Indexed) (i : ProcessorId X) :
    ¬ Relation.TransGen d.Follows i i := by
  have hlower : ∀ j, Relation.TransGen d.Follows i j →
      d.consumerRepository.processors.idxOf i < d.consumerRepository.processors.idxOf j := by
    have hone : ∀ i j, d.Follows i j →
        d.consumerRepository.processors.idxOf i < d.consumerRepository.processors.idxOf j := by
      intro i j hfollows
      have hj : d.consumerRepository.IsRegistered j :=
        ConsumerRepository.mem_processors.mp ((h i j hfollows).subset (by simp))
      exact (h.layered hindexed j hj i hfollows).2
    intro j hchain
    induction hchain with
    | single hfollows => exact hone _ _ hfollows
    | tail _ hfollows ih => exact ih.trans (hone _ _ hfollows)
  exact fun hchain => lt_irrefl _ (hlower i hchain)

variable [DecidableEq H] {barrierSequences : List (ProcessorId X)} {handlers : List (Consumer H X)}
  {group : EventHandlerGroup X}

lemma createOne_follows (d : Disruptor H X) (barrierSequences : List (ProcessorId X))
    (c : Consumer H X) (h : (d.createOne barrierSequences c).1.Follows i j) :
    d.Follows i j ∨ i ∈ barrierSequences ∧ j = (d.createOne barrierSequences c).2 := by
  cases c with
  | handler handlerIdentity =>
    by_cases hj : j = .created d.created
    · subst hj
      refine Or.inr ⟨?_, rfl⟩
      simpa [Follows, createOne] using h
    · refine Or.inl ?_
      simpa [Follows, createOne, Function.update_of_ne hj] using h
  | factory x =>
    by_cases hj : j = .custom x
    · subst hj
      have hmem : i ∈ d.dependentSequences (.custom x) ++ barrierSequences := by
        simpa [Follows, createOne] using h
      exact (List.mem_append.mp hmem).imp_right fun hi => ⟨hi, rfl⟩
    · refine Or.inl ?_
      simpa [Follows, createOne, Function.update_of_ne hj] using h

/-- Only the new consumers follow the barrier sequences. -/
lemma createEventProcessorsImpl_follows (d : Disruptor H X)
    (barrierSequences : List (ProcessorId X)) (handlers : List (Consumer H X))
    (h : (d.createEventProcessorsImpl barrierSequences handlers).1.Follows i j) :
    d.Follows i j ∨ i ∈ barrierSequences ∧
      j ∈ (d.createEventProcessorsImpl barrierSequences handlers).2 := by
  induction handlers generalizing d with
  | nil => exact Or.inl h
  | cons c rest ih =>
    rcases ih _ h with hone | ⟨hi, hj⟩
    · rcases createOne_follows d barrierSequences c hone with hold | ⟨hi, rfl⟩
      · exact Or.inl hold
      · exact Or.inr ⟨hi, List.mem_cons_self⟩
    · exact Or.inr ⟨hi, List.mem_cons_of_mem _ hj⟩

/-- New consumers are registered after the barrier sequences. -/
lemma FollowsEarlier.createEventProcessors (h : d.FollowsEarlier)
    (hbarrier : ∀ i ∈ barrierSequences, d.consumerRepository.IsRegistered i)
    (hs : d.createEventProcessors barrierSequences handlers = .ok (d', group)) :
    d'.FollowsEarlier := by
  obtain ⟨r, hr, -, hrepository, hdeps, -⟩ := createEventProcessors_graph hs
  have hprocessors : d'.consumerRepository.processors =
      d.consumerRepository.processors ++ r.2 := by
    have hinfos := createEventProcessorsImpl_consumerInfos { d with
      consumerRepository :=
        d.consumerRepository.unMarkEventProcessorsAsEndOfChain barrierSequences }
      barrierSequences handlers
    rw [← hr, ← hrepository] at hinfos
    calc d'.consumerRepository.processors
        = (d.consumerRepository.unMarkEventProcessorsAsEndOfChain barrierSequences).processors ++
            r.2 := by simp [ConsumerRepository.processors, hinfos, Function.comp_def]
      _ = d.consumerRepository.processors ++ r.2 := by
        rw [ConsumerRepository.processors_unMark]
  intro i j hfollows
  rw [hprocessors]
  have hcreated : r.1.Follows i j := by
    simpa [Follows, hdeps] using hfollows
  rw [hr] at hcreated
  rcases createEventProcessorsImpl_follows _ barrierSequences handlers hcreated with hold | ⟨hi, hj⟩
  · exact (h i j hold).trans (List.sublist_append_left _ _)
  · rw [← hr] at hj
    have hmem := ConsumerRepository.mem_processors.mpr (hbarrier i hi)
    exact (List.singleton_sublist.mpr hmem).append (List.singleton_sublist.mpr hj)

omit [DecidableEq H] in
lemma FollowsEarlier.addProcessors (h : d.FollowsEarlier) (processors : List X) :
    (d.addProcessors processors).FollowsEarlier := by
  have hprocessors : d.consumerRepository.processors.Sublist
      (d.addProcessors processors).consumerRepository.processors := by
    clear h
    induction processors generalizing d with
    | nil => exact List.Sublist.refl _
    | cons x rest ih =>
      refine List.Sublist.trans ?_ (ih
        (d := { d with consumerRepository := d.consumerRepository.addProcessor (.custom x) }))
      simp [ConsumerRepository.processors, ConsumerRepository.addProcessor]
  exact fun i j hfollows => (h i j hfollows).trans hprocessors

end

end Disruptor

/-! ### A program that builds a graph -/

variable [DecidableEq H] [DecidableEq X]

/-- Every consumer is registered once, and after those that it follows. -/
structure Program.Ordered (p : Program H X) : Prop where
  consistent : p.Consistent
  earlier : p.disruptor.FollowsEarlier

omit [DecidableEq H] in
lemma Program.Ordered.layered {p : Program H X} (h : p.Ordered) :
    p.disruptor.Layered fun i => p.disruptor.consumerRepository.processors.idxOf i :=
  h.earlier.layered h.consistent.indexed

omit [DecidableEq H] in
lemma Program.Ordered.acyclic {p : Program H X} (h : p.Ordered) (i : ProcessorId X) :
    ¬ Relation.TransGen p.disruptor.Follows i i :=
  h.earlier.acyclic h.consistent.indexed i

omit [DecidableEq H] [DecidableEq X] in
/-- The members of the group that a call chains consumers to are registered. -/
lemma Program.Consistent.barrierSequences {p : Program H X} (h : p.Consistent)
    (call : BuildCall H X) :
    ∀ i ∈ call.barrierSequences p.groups, p.disruptor.consumerRepository.IsRegistered i := by
  cases call with
  | chain g handlers =>
    intro i hi
    cases hgroup : p.groups[g]? with
    | none => simp [BuildCall.barrierSequences, hgroup] at hi
    | some group =>
      simp only [BuildCall.barrierSequences, hgroup, Option.map_some, Option.getD_some] at hi
      exact h.isRegistered_group hgroup i hi
  | _ => rintro i ⟨⟩

lemma Program.Ordered.step {p p' : Program H X} {call : BuildCall H X} (h : p.Ordered)
    (hcall : call.Orderly p.disruptor) (hs : p.call call = some p') : p'.Ordered := by
  refine ⟨h.consistent.step hcall hs, ?_⟩
  simp only [Program.call, Option.map_eq_some_iff] at hs
  obtain ⟨r, hperform, rfl⟩ := hs
  cases r with
  | error e => exact h.earlier
  | ok r =>
    rcases call.perform_cases hperform with ⟨handlers, -, hcreate⟩ | ⟨-, processors, heq | heq⟩
    · exact h.earlier.createEventProcessors (h.consistent.barrierSequences call) hcreate
    · show Disruptor.FollowsEarlier r.1
      rw [heq]
      exact h.earlier.addProcessors processors
    · show Disruptor.FollowsEarlier r.1
      rw [heq]
      exact h.earlier.addProcessors processors

/-! ### A program that runs -/

/-- The graph that the main thread has built, with the groups that it has been given. -/
def program (c : Config H X P) : Program H X where
  disruptor := c.shared.disruptor
  groups := Main.groups (c.threads .main)

/-- What only building changes. -/
structure Program.SameGraph (p p' : Program H X) : Prop where
  consumerRepository : p'.disruptor.consumerRepository = p.disruptor.consumerRepository
  dependentSequences : p'.disruptor.dependentSequences = p.disruptor.dependentSequences
  created : p'.disruptor.created = p.disruptor.created
  groups : p'.groups = p.groups

omit [DecidableEq H] [DecidableEq X] in
lemma Program.Ordered.of_sameGraph {p p' : Program H X} (h : p.Ordered) (hsame : p.SameGraph p') :
    p'.Ordered := by
  obtain ⟨⟨hindexed, hgroups⟩, hearlier⟩ := h
  obtain ⟨d', groups'⟩ := p'
  obtain ⟨hrepository, hdeps, hcreated, hsameGroups⟩ := hsame
  simp only at hrepository hdeps hcreated hsameGroups
  refine ⟨⟨⟨hindexed.linked.of_eq hrepository hdeps hcreated, ?_, ?_⟩, ?_⟩, ?_⟩
  · rw [hrepository]
    exact hindexed.bySequence
  · rw [hrepository, hcreated]
    exact hindexed.created_lt
  · rw [hrepository, hsameGroups]
    exact hgroups
  · unfold Disruptor.FollowsEarlier Disruptor.Follows
    rw [hrepository, hdeps]
    exact hearlier

variable [DecidableEq P] {processor : Nat → BatchEventProcessor} {waitStrategy : WaitStrategy}
  {c c' : Config H X P} {s s' : Shared H X}

omit [DecidableEq H] [DecidableEq X] in
lemma lifecycleStep_created {pc pc' : MainPc X} (hs : lifecycleStep s pc = some (s', pc')) :
    s'.disruptor.created = s.disruptor.created := by
  unfold lifecycleStep at hs
  split at hs
  case h_5 | h_6 => split_ifs at hs <;> obtain ⟨rfl, -⟩ := Prod.mk.inj (Option.some.inj hs) <;> rfl
  case h_8 => split at hs <;> obtain ⟨rfl, -⟩ := Prod.mk.inj (Option.some.inj hs) <;> rfl
  case h_10 => cases hs
  all_goals
    obtain ⟨rfl, -⟩ := Prod.mk.inj (Option.some.inj hs)
    rfl

omit [DecidableEq P] in
/-- A call that builds the graph is one of the program. -/
lemma buildStep_call {l l' : Main X} {call : BuildCall H X}
    (hs : buildStep s l call = some (s', l')) :
    Program.call ⟨s.disruptor, l.groups⟩ call = some ⟨s'.disruptor, l'.groups⟩ := by
  unfold buildStep at hs
  split_ifs at hs
  simp only [Option.map_eq_some_iff] at hs
  obtain ⟨r, hperform, heq⟩ := hs
  simp only [Program.call, hperform, Option.map_some]
  cases r with
  | error e =>
    obtain ⟨rfl, rfl⟩ := Prod.mk.inj heq
    rfl
  | ok r =>
    obtain ⟨rfl, rfl⟩ := Prod.mk.inj heq
    rfl

lemma graph_of_next {a : Label H X P} (hbuilds : ¬ ∃ call, a = ⟨.main, .build call⟩)
    (hs : (system H X P processor waitStrategy).next c a = some c') :
    c'.shared.disruptor.dependentSequences = c.shared.disruptor.dependentSequences ∧
      c'.shared.disruptor.created = c.shared.disruptor.created ∧
      Main.groups (c'.threads .main) = Main.groups (c.threads .main) := by
  obtain ⟨t, a⟩ := a
  obtain ⟨s', l', hstep, rfl⟩ := (ThreadPool.next_eq_some _).mp hs
  cases t with
  | main =>
    have hgroups : Function.update c.threads .main l' .main = l' := Function.update_self _ _ _
    simp only [hgroups]
    rcases mainStep_cases hstep with ⟨call, rfl, -⟩ | ⟨ca, cl, cl', rfl, -, hclient, rfl⟩ |
      ⟨rfl, -, rfl, rfl⟩ | ⟨rfl, -, rfl, rfl⟩ | ⟨rfl, pc, hlifecycle, rfl⟩
    · exact absurd ⟨call, rfl⟩ hbuilds
    · obtain ⟨q, granted, published, rfl⟩ := clientStep_frame hclient
      exact ⟨rfl, rfl, rfl⟩
    · unfold Shared.start
      split_ifs <;> exact ⟨rfl, rfl, rfl⟩
    · exact ⟨rfl, rfl, rfl⟩
    · exact ⟨(lifecycleStep_keeps hlifecycle).2.2.1, lifecycleStep_created hlifecycle, rfl⟩
  | producer p =>
    obtain ⟨q, granted, published, rfl⟩ := clientStep_frame (producerStep_eq hstep).2.2
    exact ⟨rfl, rfl, congrArg Main.groups (threads_of_next hs (by simp))⟩
  | processor k =>
    obtain ⟨-, f, -, rfl⟩ := processorStep_eq hstep
    exact ⟨rfl, rfl, congrArg Main.groups (threads_of_next hs (by simp))⟩
  | custom y =>
    simp only [system, Option.map_eq_some_iff] at hstep
    obtain ⟨s₁, hcustom, heq⟩ := hstep
    obtain ⟨rfl, -⟩ := Prod.mk.inj heq
    have hgroups := congrArg Main.groups (threads_of_next hs (u := .main) (by simp))
    obtain ⟨-, ⟨value, rfl, -⟩ | ⟨running, rfl⟩⟩ := customStep_eq hcustom <;>
      exact ⟨rfl, rfl, hgroups⟩

/-- A step builds, or leaves the graph alone. -/
lemma program_of_next (h : (outline H X P processor waitStrategy).Holds c) {a : Label H X P}
    (hs : (system H X P processor waitStrategy).next c a = some c') :
    (∃ call, a = ⟨.main, .build call⟩ ∧ (program c).call call = some (program c')) ∨
      (program c).SameGraph (program c') := by
  by_cases hbuilds : ∃ call, a = ⟨.main, .build call⟩
  · obtain ⟨call, rfl⟩ := hbuilds
    obtain ⟨s', l', hstep, rfl⟩ := (ThreadPool.next_eq_some _).mp hs
    have hgroups : Function.update c.threads .main l' .main = l' := Function.update_self _ _ _
    refine Or.inl ⟨call, rfl, ?_⟩
    simp only [program, hgroups]
    have hmain : mainStep c.shared (c.threads .main) (.build call) = some (s', l') := hstep
    rcases mainStep_cases hmain with ⟨call', hcall, -, hbuild⟩ | ⟨ca, cl, cl', ⟨⟩, -⟩ |
      ⟨⟨⟩, -⟩ | ⟨⟨⟩, -⟩ | ⟨⟨⟩, -⟩
    obtain rfl := MainAction.build.inj hcall
    exact buildStep_call hbuild
  · obtain ⟨hdeps, hcreated, hgroups⟩ := graph_of_next hbuilds hs
    have hframe := (frame_of_next h hs).resolve_right
      fun ⟨call, _, heq, _⟩ => hbuilds ⟨call, heq⟩
    exact Or.inr ⟨hframe.consumerRepository, hdeps, hcreated, hgroups⟩

/-- The outline, and the order of the graph. -/
structure OrderedInv (processor : Nat → BatchEventProcessor) (waitStrategy : WaitStrategy)
    (c : Config H X P) : Prop where
  holds : (outline H X P processor waitStrategy).Holds c
  ordered : (program c).Ordered

/-- The processors that a call that builds the graph registers are new, and those that
`after(processors, count)` names are registered. -/
def BuildsOrderly (x : Transition (Config H X P) (Label H X P)) : Prop :=
  ∀ call, x.act = ⟨.main, .build call⟩ → call.Orderly x.pre.shared.disruptor

lemma OrderedInv.next (h : OrderedInv processor waitStrategy c) {a : Label H X P}
    (hs : (system H X P processor waitStrategy).next c a = some c')
    (hbuilds : BuildsOrderly ⟨c, a, c'⟩) : OrderedInv processor waitStrategy c' := by
  refine ⟨h.holds.next hs, ?_⟩
  rcases program_of_next h.holds hs with ⟨call, heq, hcall⟩ | hsame
  · exact h.ordered.step (hbuilds call heq) hcall
  · exact h.ordered.of_sameGraph hsame

omit [DecidableEq P] in
lemma orderedInv_initial (producerType : ProducerType) (b : BufferSize) :
    OrderedInv processor waitStrategy (initial H X P producerType b) := by
  refine ⟨initial_holds producerType b, 
    (Program.inStep_initial producerType b).consistent, ?_⟩
  intro i j hfollows
  cases hfollows

/-- In every run of a program whose calls register new consumers and name registered ones, every
consumer is registered after those that it follows: the order of the repository gives the layers of
the graph, and no chain of dependencies leads from a consumer back to itself. -/
theorem follows_registeredEarlier {producerType : ProducerType} {b : BufferSize}
    {as : List (Label H X P)}
    (hbuilds : ∀ x ∈ transitions (system H X P processor waitStrategy).next
      (initial H X P producerType b) as, BuildsOrderly x) :
    ∀ x ∈ transitions (system H X P processor waitStrategy).next
      (initial H X P producerType b) as,
      (∀ i j, x.post.shared.disruptor.Follows i j →
        List.Sublist [i, j] x.post.shared.disruptor.consumerRepository.processors) ∧
      (x.post.shared.disruptor.Layered fun i =>
        x.post.shared.disruptor.consumerRepository.processors.idxOf i) ∧
      ∀ i, ¬ Relation.TransGen x.post.shared.disruptor.Follows i i := by
  intro x hx
  obtain ⟨-, -, hordered⟩ := transitions_invariant (OrderedInv processor waitStrategy)
    BuildsOrderly (fun _ _ _ h hs hc => h.next hs hc) (orderedInv_initial producerType b)
    hbuilds x hx
  exact ⟨hordered.earlier, hordered.layered, hordered.acyclic⟩

/-- The condition on a step, evaluated. -/
def buildsOrderly (x : Transition (Config H X P) (Label H X P)) : Bool :=
  match x.act with
  | ⟨.main, a⟩ =>
    match (a : MainAction H X) with
    | .build call => decide (call.Orderly x.pre.shared.disruptor)
    | _ => true
  | _ => true

omit [DecidableEq H] [DecidableEq P] in
lemma buildsOrderly_sound {x : Transition (Config H X P) (Label H X P)}
    (h : buildsOrderly x = true) : BuildsOrderly x := by
  obtain ⟨pre, act, post⟩ := x
  rintro call ⟨⟩
  exact of_decide_eq_true h

/-- The program builds a graph of handlers and of processors of its own, of which one comes from a
factory, starts it and publishes an event. -/
def startDiamond : List (Label Nat Bool Empty) :=
  [⟨.main, .build (.handleEventsWith [.handler 0])⟩,
    ⟨.main, .build (.chain 0 [.handler 1, .factory false])⟩,
    ⟨.main, .build (.andProcessors 1 [true])⟩, ⟨.main, .build (.chain 2 [.handler 2])⟩,
    ⟨.main, .build (.afterProcessors [false])⟩, ⟨.main, .build (.chain 4 [.handler 3])⟩,
    ⟨.main, .start⟩] ++
    List.replicate 7 ⟨.main, .proceed⟩ ++ [⟨.main, .client (.claim (.next 1))⟩,
    ⟨.main, .client (.translate true)⟩, ⟨.main, .client (.proceed false)⟩]

theorem follows_registeredEarlier_startDiamond :
    ∃ x, (transitions (system Nat Bool Empty (fun _ => ⟨9, .NoRewindHandler, by decide⟩)
        .BusySpin).next (initial Nat Bool Empty .SINGLE ⟨3, by decide⟩) startDiamond)[16]? =
          some x ∧
      x.post.shared.disruptor.consumerRepository.processors =
        [.created 0, .created 1, .custom false, .custom true, .created 2, .created 3] ∧
      x.post.shared.disruptor.dependentSequences (.created 2) =
        [.custom true, .created 1, .custom false] ∧
      x.post.shared.disruptor.dependentSequences (.created 3) = [.custom false] ∧
      ¬ Relation.TransGen x.post.shared.disruptor.Follows (.custom false) (.custom false) := by
  have hall : (transitions (system Nat Bool Empty (fun _ => ⟨9, .NoRewindHandler, by decide⟩)
      .BusySpin).next (initial Nat Bool Empty .SINGLE ⟨3, by decide⟩) startDiamond).all
        buildsOrderly = true := by decide +kernel
  obtain ⟨x, hx, hprocessors, hjoined, hdeps⟩ :
      ∃ x, (transitions (system Nat Bool Empty (fun _ => ⟨9, .NoRewindHandler, by decide⟩)
          .BusySpin).next (initial Nat Bool Empty .SINGLE ⟨3, by decide⟩) startDiamond)[16]? =
            some x ∧
        x.post.shared.disruptor.consumerRepository.processors =
          [.created 0, .created 1, .custom false, .custom true, .created 2, .created 3] ∧
        x.post.shared.disruptor.dependentSequences (.created 2) =
          [.custom true, .created 1, .custom false] ∧
        x.post.shared.disruptor.dependentSequences (.created 3) = [.custom false] :=
    ⟨_, rfl, rfl, rfl, rfl⟩
  refine ⟨x, hx, hprocessors, hjoined, hdeps, ?_⟩
  exact (follows_registeredEarlier
    (fun y hy => buildsOrderly_sound (List.all_eq_true.mp hall y hy)) x
    (List.mem_of_getElem? hx)).2.2 _

end Disruptor.Dsl
