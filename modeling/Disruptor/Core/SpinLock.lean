import Disruptor.Core.Linearizability
import Disruptor.Core.ThreadPool

/-!
# An object behind a test-and-set lock

Threads call the operations of one object, each of them in several steps on the object between
taking and releasing a spin lock. When the steps of every operation, taken without interference,
do what a sequential object does, the calls are linearizable whatever the interleaving.
-/

namespace Disruptor.Core

variable {T σ Op Res K : Type*}

/-- What the operations do to the object while the lock is held: the place where each begins, and
one step, to the next place or to the result. -/
structure CriticalSection (σ Op Res K : Type*) where
  start : Op → K
  step : Op → K → σ → σ × (K ⊕ Res)

/-- Alone on the object, every operation does what the sequential object does. `At op k s₀ s` says
of the place `k` that it is reached with the object at `s` from the object at `s₀`. -/
structure CriticalSection.Implements (body : CriticalSection σ Op Res K)
    (o : SequentialObject σ Op Res) (At : Op → K → σ → σ → Prop) : Prop where
  start : ∀ op s, At op (body.start op) s s
  step : ∀ {op k s₀ s s' k'}, At op k s₀ s → body.step op k s = (s', .inl k') → At op k' s₀ s'
  finish : ∀ {op k s₀ s s' r}, At op k s₀ s → body.step op k s = (s', .inr r) →
    s' = o.apply s₀ op ∧ r = o.returns s₀ op

namespace SpinLock

/-- Where a call is. -/
inductive Pc (Res K : Type*) where
  /-- Before `test_and_set`. -/
  | spin
  | inside (k : K)
  /-- The operation has had its effect, as the effect number `effectAt`; before the flag is
  cleared. -/
  | unlock (effectAt : Nat) (result : Res)

/-- A call in progress, and the number of effects at its invocation. -/
structure Call (Op Res K : Type*) where
  op : Op
  invokedAt : Nat
  pc : Pc Res K

inductive Action (Op : Type*) where
  | invoke (op : Op)
  | proceed

/-- What the threads share: the flag of the lock and the object, with the thread that took the lock
and the history of the calls. -/
structure Shared (T σ Op Res : Type*) where
  flag : Bool := false
  object : σ
  owner : Option T := none
  history : History T Op Res := {}

/-- One step of a thread. -/
def step (body : CriticalSection σ Op Res K) (t : T) (s : Shared T σ Op Res)
    (l : Option (Call Op Res K)) (a : Action Op) :
    Option (Shared T σ Op Res × Option (Call Op Res K)) :=
  match l, a with
  | none, .invoke op => some (s, some ⟨op, s.history.effects.length, .spin⟩)
  | some c, .proceed =>
    match c.pc with
    | .spin =>
      if s.flag then some (s, some c)
      else
        some ({ s with flag := true, owner := some t },
          some { c with pc := .inside (body.start c.op) })
    | .inside k =>
      match body.step c.op k s.object with
      | (object, .inl k') => some ({ s with object := object }, some { c with pc := .inside k' })
      | (object, .inr result) =>
        some ({ s with object := object, history := s.history.commit ⟨t, c.op, result⟩ },
          some { c with pc := .unlock s.history.effects.length result })
    | .unlock effectAt result =>
      some
        ({ s with
            flag := false
            owner := none
            history := s.history.complete ⟨t, c.op, result⟩ c.invokedAt effectAt },
          none)
  | _, _ => none

def pool (T : Type*) (body : CriticalSection σ Op Res K) :
    ThreadPool T (Shared T σ Op Res) (fun _ => Option (Call Op Res K)) (fun _ => Action Op) where
  step := step body

/-- No thread is in a call. -/
def initial (T : Type*) (object : σ) :
    ThreadPool.Config (Shared T σ Op Res) fun _ : T => Option (Call Op Res K) where
  shared := { object := object }
  threads _ := none

/-- The thread has taken the lock and not released it. -/
def Holding (l : Option (Call Op Res K)) : Prop :=
  ∃ c, l = some c ∧ c.pc ≠ .spin

/-! ### What the threads know -/

/-- The object is what the effects have made of it, unless a thread is at work on it. -/
structure Shared.Inv (o : SequentialObject σ Op Res) (s₀ : σ) (s : Shared T σ Op Res) : Prop where
  flag : s.flag = s.owner.isSome
  object_eq : s.owner = none → s.object = s.history.final o s₀
  legal : s.history.Legal o s₀

lemma Shared.Inv.owner_eq_none {o : SequentialObject σ Op Res} {s₀ : σ} {s : Shared T σ Op Res}
    (h : s.Inv o s₀) (hflag : s.flag = false) : s.owner = none := by
  rw [h.flag] at hflag
  simpa using hflag

variable [DecidableEq T]

/-- What a thread knows in a call. -/
def Pc.Knows (o : SequentialObject σ Op Res) (At : Op → K → σ → σ → Prop) (s₀ : σ) (t : T)
    (op : Op) (invokedAt : Nat) (s : Shared T σ Op Res) : Pc Res K → Prop
  | .spin => s.owner ≠ some t ∧ s.history.effectsOf t = s.history.completedOf t
  | .inside k =>
    s.owner = some t ∧ s.history.effectsOf t = s.history.completedOf t ∧
      At op k (s.history.final o s₀) s.object
  | .unlock effectAt result =>
    s.owner = some t ∧ s.object = s.history.final o s₀ ∧
      s.history.effectsOf t = s.history.completedOf t ++ [⟨t, op, result⟩] ∧
      s.history.Took ⟨t, op, result⟩ invokedAt effectAt

/-- What a thread knows. -/
def Knows (o : SequentialObject σ Op Res) (At : Op → K → σ → σ → Prop) (s₀ : σ) (t : T)
    (l : Option (Call Op Res K)) (s : Shared T σ Op Res) : Prop :=
  match l with
  | none => s.owner ≠ some t ∧ s.history.effectsOf t = s.history.completedOf t
  | some c => c.invokedAt ≤ s.history.effects.length ∧ c.pc.Knows o At s₀ t c.op c.invokedAt s

/-- What a thread relies on when another thread moves: while it holds the lock, nothing happens. -/
structure Rely (t : T) (s s' : Shared T σ Op Res) : Prop where
  owner : s'.owner = some t ↔ s.owner = some t
  unchanged : s.owner = some t → s'.object = s.object ∧ s'.history = s.history
  history : History.Grows t s.history s'.history

variable {body : CriticalSection σ Op Res K} {o : SequentialObject σ Op Res}
  {At : Op → K → σ → σ → Prop} {s₀ : σ} {s s' : Shared T σ Op Res} {t : T}
  {l l' : Option (Call Op Res K)} {a : Action Op}

lemma Knows.stable (h : Knows o At s₀ t l s) (hrely : Rely t s s') : Knows o At s₀ t l s' := by
  obtain ⟨howner, hunchanged, hgrows⟩ := hrely
  have hsettled : s.history.effectsOf t = s.history.completedOf t →
      s'.history.effectsOf t = s'.history.completedOf t := by
    intro hsettled
    rw [hgrows.effectsOf_eq, hgrows.completedOf_eq]
    exact hsettled
  cases l with
  | none => exact ⟨fun hown => h.1 (howner.mp hown), hsettled h.2⟩
  | some c =>
    obtain ⟨op, invokedAt, pc⟩ := c
    obtain ⟨hinvoked, hpc⟩ := h
    refine ⟨hinvoked.trans hgrows.prefix_effects.length_le, ?_⟩
    cases pc with
    | spin => exact ⟨fun hown => hpc.1 (howner.mp hown), hsettled hpc.2⟩
    | inside k =>
      obtain ⟨hobject, hhistory⟩ := hunchanged hpc.1
      refine ⟨howner.mpr hpc.1, hsettled hpc.2.1, ?_⟩
      simp only [hobject, hhistory]
      exact hpc.2.2
    | unlock effectAt result =>
      obtain ⟨hobject, hhistory⟩ := hunchanged hpc.1
      refine ⟨howner.mpr hpc.1, ?_⟩
      simp only [hobject, hhistory]
      exact hpc.2

/-! ### Steps -/

/-- What a step of the thread `t` leaves. -/
structure StepSound (o : SequentialObject σ Op Res) (At : Op → K → σ → σ → Prop) (s₀ : σ) (t : T)
    (s s' : Shared T σ Op Res) (l' : Option (Call Op Res K)) : Prop where
  inv : s'.Inv o s₀
  knows : Knows o At s₀ t l' s'
  rely : ∀ u, u ≠ t → Rely u s s'

/-- A step that changes nothing that is shared. -/
lemma StepSound.refl (h : s.Inv o s₀) (hl : Knows o At s₀ t l' s) :
    StepSound o At s₀ t s s l' :=
  ⟨h, hl, fun u _ => ⟨Iff.rfl, fun _ => ⟨rfl, rfl⟩, History.Grows.refl u _⟩⟩

/-- While `t` holds the lock, no other thread does. -/
lemma rely_of_owner {u : T} (hu : u ≠ t) (hown : s.owner = some t)
    (hown' : s'.owner = some t ∨ s'.owner = none)
    (hgrows : History.Grows u s.history s'.history) : Rely u s s' := by
  have hne : s.owner ≠ some u := by
    rw [hown]
    intro heq
    exact hu (Option.some.inj heq).symm
  have hne' : s'.owner ≠ some u := by
    rcases hown' with hown' | hown'
    · rw [hown']
      intro heq
      exact hu (Option.some.inj heq).symm
    · simp [hown']
  exact ⟨iff_of_false hne' hne, fun hown => absurd hown hne, hgrows⟩

/-- A step inside the lock. -/
lemma step_sound_inside (hbody : body.Implements o At) (h : s.Inv o s₀) {op : Op}
    {invokedAt : Nat} {k : K} (hl : Knows o At s₀ t (some ⟨op, invokedAt, .inside k⟩) s)
    (hs : step body t s (some ⟨op, invokedAt, .inside k⟩) .proceed = some (s', l')) :
    StepSound o At s₀ t s s' l' := by
  obtain ⟨hinvoked, hown, hsettled, hat⟩ := hl
  simp only [step] at hs
  split at hs
  · rename_i object k' hstep
    obtain ⟨rfl, rfl⟩ := Prod.mk.inj (Option.some.inj hs)
    refine ⟨⟨h.flag, ?_, h.legal⟩, ⟨hinvoked, hown, hsettled, hbody.step hat hstep⟩, ?_⟩
    · simp [hown]
    · exact fun u hu => rely_of_owner hu hown (Or.inl hown) (History.Grows.refl u _)
  · rename_i object result hstep
    obtain ⟨rfl, rfl⟩ := Prod.mk.inj (Option.some.inj hs)
    obtain ⟨hobject, hresult⟩ := hbody.finish hat hstep
    have hfinal : object = (s.history.commit ⟨t, op, result⟩).final o s₀ := by
      rw [History.final_commit]
      exact hobject
    refine ⟨⟨h.flag, fun _ => hfinal, h.legal.commit hresult⟩, ⟨?_, hown, hfinal, ?_, ?_⟩, ?_⟩
    · simp only [History.commit, List.length_append]
      exact hinvoked.trans (Nat.le_add_right _ _)
    · have heffects := History.effectsOf_commit_self s.history ⟨t, op, result⟩
      simp only [hsettled] at heffects
      simpa using heffects
    · exact History.took_commit _ _ hinvoked
    · intro u hu
      exact rely_of_owner hu hown (Or.inl hown) (History.grows_commit _ hu.symm)

/-- The lock is released. -/
lemma step_sound_unlock (h : s.Inv o s₀) {op : Op} {invokedAt effectAt : Nat} {result : Res}
    (hl : Knows o At s₀ t (some ⟨op, invokedAt, .unlock effectAt result⟩) s)
    (hs : step body t s (some ⟨op, invokedAt, .unlock effectAt result⟩) .proceed =
      some (s', l')) :
    StepSound o At s₀ t s s' l' := by
  obtain ⟨-, hown, hobject, heffects, htook⟩ := hl
  obtain ⟨rfl, rfl⟩ := Prod.mk.inj (Option.some.inj hs)
  refine ⟨⟨rfl, fun _ => hobject, h.legal.complete htook⟩, ⟨by simp, ?_⟩, ?_⟩
  · have hcompleted :=
      History.completedOf_complete_self s.history ⟨t, op, result⟩ invokedAt effectAt
    simp only [History.effectsOf_complete, heffects]
    exact hcompleted.symm
  · intro u hu
    exact rely_of_owner hu hown (Or.inr rfl) (History.grows_complete _ hu.symm _ _)

/-- Every step keeps the invariant. -/
theorem step_sound (hbody : body.Implements o At) (h : s.Inv o s₀) (hl : Knows o At s₀ t l s)
    (hs : step body t s l a = some (s', l')) : StepSound o At s₀ t s s' l' := by
  cases l with
  | none =>
    cases a with
    | invoke op =>
      obtain ⟨rfl, rfl⟩ := Prod.mk.inj (Option.some.inj hs)
      exact StepSound.refl h ⟨le_rfl, hl⟩
    | proceed => cases hs
  | some c =>
    obtain ⟨op, invokedAt, pc⟩ := c
    cases a with
    | invoke op => cases hs
    | proceed =>
      cases pc with
      | spin =>
        obtain ⟨hinvoked, hown, hsettled⟩ := hl
        simp only [step] at hs
        split_ifs at hs with hflag
        · obtain ⟨rfl, rfl⟩ := Prod.mk.inj (Option.some.inj hs)
          exact StepSound.refl h ⟨hinvoked, hown, hsettled⟩
        · obtain ⟨rfl, rfl⟩ := Prod.mk.inj (Option.some.inj hs)
          have hfree : s.owner = none := h.owner_eq_none (Bool.eq_false_iff.mpr hflag)
          refine ⟨⟨rfl, by simp, h.legal⟩, ⟨hinvoked, rfl, hsettled, ?_⟩, ?_⟩
          · show At op _ (s.history.final o s₀) s.object
            rw [h.object_eq hfree]
            exact hbody.start op _
          · intro u hu
            refine ⟨?_, ?_, History.Grows.refl u _⟩
            · simp [hfree, hu.symm]
            · simp [hfree]
      | inside k => exact step_sound_inside hbody h hl hs
      | unlock effectAt result => exact step_sound_unlock h hl hs

/-- The proof outline of the lock. -/
def outline (hbody : body.Implements o At) (s₀ : σ) : (pool T body).Outline where
  inv := Shared.Inv o s₀
  assertion := Knows o At s₀
  rely := Rely
  step_inv h hl hs := (step_sound hbody h hl hs).inv
  step_assertion h hl hs := (step_sound hbody h hl hs).knows
  step_rely h hl hs u hu := (step_sound hbody h hl hs).rely u hu
  stable _ _ hl hrely := hl.stable hrely

omit [DecidableEq T] in
lemma inv_initial (o : SequentialObject σ Op Res) (s₀ : σ) :
    (initial (K := K) T s₀).shared.Inv o s₀ := by
  refine ⟨rfl, fun _ => rfl, ?_, ?_, ?_, ?_⟩
  · intro n e he
    simp [initial] at he
  all_goals
    intro c hc
    cases hc

/-- The calls have worked on the object as if each had been made alone. -/
structure Linearized (o : SequentialObject σ Op Res) (s₀ : σ)
    (cfg : ThreadPool.Config (Shared T σ Op Res) fun _ => Option (Call Op Res K)) : Prop where
  /-- At most one thread is between taking and releasing the lock. -/
  exclusive : ∀ t u, Holding (cfg.threads t) → Holding (cfg.threads u) → t = u
  legal : cfg.shared.history.Legal o s₀
  object_eq : cfg.shared.flag = false → cfg.shared.object = cfg.shared.history.final o s₀
  /-- Outside of its calls, the effects of a thread are its calls, in their order. -/
  program_order : ∀ t, cfg.threads t = none →
    cfg.shared.history.effectsOf t = cfg.shared.history.completedOf t

/-- After every interleaving the calls are linearizable. -/
theorem linearized_of_run (hbody : body.Implements o At)
    {cfg : ThreadPool.Config (Shared T σ Op Res) fun _ => Option (Call Op Res K)}
    {as : List (Σ _ : T, Action Op)}
    (hr : run (pool T body).next (initial T s₀) as = some cfg) : Linearized o s₀ cfg := by
  have hholds : (outline hbody s₀).Holds cfg := by
    refine ThreadPool.Outline.Holds.run ⟨inv_initial o s₀, ?_⟩ hr
    intro t
    exact ⟨by simp [initial], rfl⟩
  have howner : ∀ t, Holding (cfg.threads t) → cfg.shared.owner = some t := by
    rintro t ⟨⟨op, invokedAt, pc⟩, hcall, hpc⟩
    have hknows : Knows o At s₀ t (cfg.threads t) cfg.shared := hholds.threads t
    rw [hcall] at hknows
    cases pc with
    | spin => exact absurd rfl hpc
    | inside k => exact hknows.2.1
    | unlock effectAt result => exact hknows.2.1
  refine ⟨?_, hholds.shared.legal, ?_, ?_⟩
  · intro t u ht hu
    exact Option.some.inj ((howner t ht).symm.trans (howner u hu))
  · intro hflag
    exact hholds.shared.object_eq (hholds.shared.owner_eq_none hflag)
  · intro t hidle
    have hknows : Knows o At s₀ t (cfg.threads t) cfg.shared := hholds.threads t
    rw [hidle] at hknows
    exact hknows.2

end SpinLock

end Disruptor.Core
