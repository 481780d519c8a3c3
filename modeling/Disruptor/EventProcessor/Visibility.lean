import Disruptor.Core.Ledger
import Disruptor.EventProcessor.RunCall

/-!
# What a processor sees

When the cursor, the dependent sequences and the flags that a barrier reads have passed only
sequences that may be seen, its processor hands its handler no other, and its own sequence passes
no other.
-/

namespace Disruptor.BatchEventProcessor

open Disruptor.Core

variable {ι : Type*} {p : BatchEventProcessor} {b : Barrier ι} {view : WaitView ι}
  {values values' : ι → Int} {s0 : Int} {f f' : Fields} {pc pc' : RunPc ι} {a : RunAction}
  {s s' : State} {i : Input} {flags : Bool} {Seen Seen' : Int → Prop}

/-- A step goes back to the start of a batch, or on to the next sequence of what was allowed. -/
lemma step_nextSequence {Allowed : Int → Prop} {calls : List Call}
    (h : Progress s0 Allowed calls s) (hdown : ∀ a a', Allowed a → a' ≤ a → Allowed a')
    (hs : p.step s i = some s') :
    s'.nextSequence ≤ s.nextSequence ∨
      s'.nextSequence = s.nextSequence + 1 ∧ Allowed s.nextSequence := by
  have hat := h.atPc
  cases step_iff.mp hs with
  | onEvent hpc =>
    rw [hpc] at hat
    exact Or.inr ⟨by simp, hdown _ _ hat.2.2.2 hat.2.2.1⟩
  | rewinds hpc =>
    rw [hpc] at hat
    exact Or.inl hat.2.1
  | skip hpc =>
    rw [hpc] at hat
    exact Or.inr ⟨rfl, hat.1⟩
  | halt => exact Or.inl le_rfl
  | _ => exact Or.inl (by simp)

/-- What the fields of a processor tell. -/
structure Fields.SeesOnly (Seen : Int → Prop) (f : Fields) : Prop where
  sequence : Upto Seen f.sequence
  onEvent : ∀ t endOfBatch start thrown, .onEvent t endOfBatch start thrown ∈ f.calls → Seen t

/-- What the thread of a processor has seen at each of its places, where `flags` tells that its
barrier reads flags. -/
def RunPc.Sees (b : Barrier ι) (flags : Bool) (Seen : Int → Prop) (values : ι → Int) (s0 : Int)
    (f : Fields) : RunPc ι → Prop
  | .processEvents s call =>
    Progress s0 (Upto Seen) f.calls s ∧ Upto Seen (s.nextSequence - 1) ∧
      call.Knows b (fun a => flags = false → Upto Seen a) (fun t => 0 ≤ t → Seen t) values
        s.nextSequence
  | _ => True

lemma Fields.SeesOnly.mono (h : f.SeesOnly Seen) (hseen : ∀ t, Seen t → Seen' t)
    (hsequence : f'.sequence = f.sequence) (hcalls : f'.calls = f.calls) : f'.SeesOnly Seen' := by
  constructor
  · rw [hsequence]
    exact h.sequence.mono le_rfl hseen
  · rw [hcalls]
    exact fun t e start thrown hmem => hseen t (h.onEvent t e start thrown hmem)

/-- What was seen stays so when more may be seen and the sequences advance. -/
lemma RunPc.Sees.mono (h : pc.Sees b flags Seen values s0 f) (hseen : ∀ t, Seen t → Seen' t)
    (hv : ∀ i ∈ b.dependentSequences, values i ≤ values' i) (hcalls : f'.calls = f.calls) :
    pc.Sees b flags Seen' values' s0 f' := by
  cases pc with
  | processEvents s call =>
    obtain ⟨hprogress, hbefore, hcall⟩ := h
    refine ⟨?_, hbefore.mono le_rfl hseen,
      hcall.mono ?_ (fun t ht hle => hseen t (ht hle)) hv⟩
    · rw [hcalls]
      exact hprogress.mono (fun a ha => ha.mono le_rfl hseen) fun _ => id
    · exact fun a ha hflags => (ha hflags).mono le_rfl hseen
  | _ => trivial

/-- `onEvent` is called with sequences that were allowed. -/
lemma call_seen {calls : List Call} (h : Progress s0 (Upto Seen) calls s) {t start : Int}
    {endOfBatch : Bool} {thrown : Option Exception}
    (hcall : call s i = some (.onEvent t endOfBatch start thrown)) (hge : 0 ≤ s.nextSequence) :
    Seen t := by
  obtain ⟨rfl, last, hpc⟩ := call_onEvent hcall
  have hat := h.atPc
  rw [hpc] at hat
  exact hat.2.2.2 _ hge hat.2.2.1

/-- A step of `processEvents`, with what the barrier has answered. -/
lemma Fields.processEvents_sees (hf : f.SeesOnly Seen) (hs0 : Upto Seen s0)
    (h : Progress s0 (Upto Seen) f.calls s) (hbefore : Upto Seen (s.nextSequence - 1))
    (hge : 0 ≤ s.nextSequence) (hi : i.Granted (Upto Seen) s)
    (hs : f.processEvents (ι := ι) p s i = some (f', pc')) :
    f'.SeesOnly Seen ∧ pc'.Sees b flags Seen values s0 f' := by
  have hdown : ∀ a a', Upto Seen a → a' ≤ a → Upto Seen a' :=
    fun a a' ha hle => ha.mono hle fun _ => id
  simp only [Fields.processEvents, Option.map_eq_some_iff, Prod.mk.injEq] at hs
  obtain ⟨s', hstep, rfl, rfl⟩ := hs
  have hrunning := h.running f.running
  have hgranted : i.Granted (Upto Seen) { s with running := f.running } := by
    revert hi
    cases i with
    | waitFor answer => cases answer <;> exact id
    | _ => exact id
  have hprogress := hrunning.step hdown hgranted hstep
  have hcall : call { s with running := f.running } i = call s i := rfl
  rw [hcall] at hprogress
  have hbefore' : Upto Seen (s'.nextSequence - 1) := by
    rcases step_nextSequence hrunning hdown hstep with hle | ⟨heq, hallowed⟩
    · exact hbefore.mono (by simp only at hle; omega) fun _ => id
    · refine hallowed.mono ?_ fun _ => id
      simp only at heq ⊢
      omega
  refine ⟨⟨?_, ?_⟩, ?_⟩
  · rcases hprogress.allowed with heq | hallowed
    · simp only [heq]
      exact hs0
    · exact hallowed
  · intro t endOfBatch start thrown hmem
    rcases List.mem_append.mp hmem with hnew | hold
    · exact call_seen h (Option.mem_toList.mp hnew) hge
    · exact hf.onEvent t endOfBatch start thrown hold
  · split
    · trivial
    · exact ⟨hprogress, hbefore', trivial⟩

/-- A step of the thread of a processor. -/
theorem runStep_sees (hf : f.SeesOnly Seen) (hs0 : Upto Seen s0) (hge : -1 ≤ f.sequence)
    (hknows : pc.Knows b view.values s0 f) (h : pc.Sees b flags Seen view.values s0 f)
    (hflags : view.available.isSome = flags) (hcursor : flags = false → Upto Seen view.cursor)
    (hvalues : ∀ i ∈ b.dependentSequences, Upto Seen (view.values i))
    (hflag : ∀ isAvailable t, view.available = some isAvailable → 0 ≤ t → Upto Seen (t - 1) →
      isAvailable t = true → Seen t)
    (hs : runStep p b view f pc a = some (f', pc')) :
    f'.SeesOnly Seen ∧ pc'.Sees b flags Seen view.values s0 f' := by
  unfold runStep at hs
  split at hs
  · split at hs
    all_goals
      obtain ⟨rfl, rfl⟩ := Prod.mk.inj (Option.some.inj hs)
      exact ⟨hf.mono (fun _ => id) rfl rfl, trivial⟩
  · obtain ⟨rfl, rfl⟩ := Prod.mk.inj (Option.some.inj hs)
    exact ⟨hf.mono (fun _ => id) rfl rfl, trivial⟩
  · obtain ⟨rfl, rfl⟩ := Prod.mk.inj (Option.some.inj hs)
    exact ⟨hf, trivial⟩
  · split_ifs at hs
    · obtain ⟨rfl, rfl⟩ := Prod.mk.inj (Option.some.inj hs)
      have hstart : f.sequence = s0 := hknows
      refine ⟨hf, hstart ▸ progress_enter _, hf.sequence.mono ?_ fun _ => id, trivial⟩
      simp [enter]
    · obtain ⟨rfl, rfl⟩ := Prod.mk.inj (Option.some.inj hs)
      exact ⟨hf, trivial⟩
  · rename_i s call choice
    obtain ⟨hsequence, hprogress, -⟩ := hknows
    obtain ⟨hseen, hbefore, hcall⟩ := h
    have hlt : f.sequence < s.nextSequence := hsequence ▸ hprogress.sequence_lt
    -- the flags of what the call asks for are read from its first sequence on
    have hflag' : ∀ isAvailable t, view.available = some isAvailable → s.nextSequence ≤ t →
        (∀ u, s.nextSequence ≤ u → u < t → 0 ≤ u → Seen u) → isAvailable t = true →
          0 ≤ t → Seen t := by
      intro isAvailable t havailable ht hall hset hnonneg
      refine hflag isAvailable t havailable hnonneg ?_ hset
      intro u hu hu'
      by_cases hold : u < s.nextSequence
      · exact hbefore u hu (by omega)
      · exact hall u (by omega) (by omega) hu
    split_ifs at hs with hpc
    split at hs
    · rename_i call' hstep
      obtain ⟨rfl, rfl⟩ := Prod.mk.inj (Option.some.inj hs)
      exact ⟨hf, hseen, hbefore, WaitCall.step_knows hcall hcursor hflag' hstep⟩
    · rename_i answer hstep
      refine Fields.processEvents_sees hf hs0 hseen hbefore (by omega) ?_ hs
      cases answer with
      | error e => exact waitCall_error hstep
      | ok h =>
        intro hle
        have hdown : ∀ a a', (flags = false → Upto Seen a) → a' ≤ a →
            flags = false → Upto Seen a' :=
          fun a a' ha hle hnone => (ha hnone).mono hle fun _ => id
        have hanswers := WaitCall.step_answers hcall hcursor hdown hstep
        cases flags with
        | true =>
          intro t ht ht'
          by_cases hold : t < s.nextSequence
          · exact hbefore t ht (by omega)
          · exact hanswers.seen hflags t (not_lt.mp hold) ht' ht
        | false =>
          obtain ⟨hreached, hbelow⟩ := hanswers.below hle
          cases hdependent : b.dependentSequences with
          | nil => exact hreached hdependent rfl
          | cons i rest =>
            have hmem : i ∈ b.dependentSequences := by simp [hdependent]
            exact (hvalues i hmem).mono (hbelow i hmem) fun _ => id
    · cases hs
  · rename_i s call i
    obtain ⟨hsequence, hprogress, -⟩ := hknows
    obtain ⟨hseen, hbefore, -⟩ := h
    have hlt : f.sequence < s.nextSequence := hsequence ▸ hprogress.sequence_lt
    split_ifs at hs with hown
    refine Fields.processEvents_sees hf hs0 hseen hbefore (by omega) ?_ hs
    cases i with
    | waitFor answer => cases hown
    | _ => trivial
  · obtain ⟨rfl, rfl⟩ := Prod.mk.inj (Option.some.inj hs)
    exact ⟨hf, trivial⟩
  · obtain ⟨rfl, rfl⟩ := Prod.mk.inj (Option.some.inj hs)
    exact ⟨hf.mono (fun _ => id) rfl rfl, trivial⟩
  · obtain ⟨rfl, rfl⟩ := Prod.mk.inj (Option.some.inj hs)
    exact ⟨hf, trivial⟩
  · obtain ⟨rfl, rfl⟩ := Prod.mk.inj (Option.some.inj hs)
    exact ⟨hf, trivial⟩
  · cases hs

end Disruptor.BatchEventProcessor
