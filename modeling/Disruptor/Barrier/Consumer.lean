import Disruptor.Barrier.WaitCall
import Mathlib.Data.List.Basic

/-!
# A consumer of the ring

A consumer repeats `h = barrier.waitFor(q + 1)`, reads `get(s)` for `s = q + 1, …, h`, and sets
its own sequence, which held `q`, to `h`.
-/

namespace Disruptor

variable {ι V : Type*}

/-- Where a consumer is. -/
inductive ConsumerPc (ι : Type*) where
  | idle
  | waiting (call : WaitCall ι)
  /-- Before it reads the event of `next`, if that is at or below `h`. -/
  | reading (next h : Int)

/-- A consumer, with the history of its reads. -/
structure Consumer (ι V : Type*) where
  pc : ConsumerPc ι := .idle
  reads : List (Int × V) := []

namespace Consumer

/-- One step of a consumer whose own sequence holds `q`, where `get` reads the ring; the second
component is what it sets its own sequence to. A call of `waitFor` that throws is made again. -/
def step (b : Barrier ι) (view : WaitView ι) (get : Int → V) (q : Int) (l : Consumer ι V)
    (choice : WaitChoice) : Option (Consumer ι V × Option Int) :=
  match l.pc with
  | .idle => some ({ l with pc := .waiting .checkAlert }, none)
  | .waiting call =>
    (call.step b view (q + 1) choice).map fun
      | .inl call' => ({ l with pc := .waiting call' }, none)
      | .inr (.ok h) => ({ l with pc := .reading (q + 1) h }, none)
      | .inr (.error _) => ({ l with pc := .idle }, none)
  | .reading next h =>
    if next ≤ h then
      some ({ pc := .reading (next + 1) h, reads := l.reads ++ [(next, get next)] }, none)
    else some ({ l with pc := .idle }, some h)

/-- The sequences `0, 1, …, next - 1` were read, each with the value that was recorded for it. -/
def ReadsInOrder (log : Int → Option V) (Readable : Int → Prop) (reads : List (Int × V))
    (next : Int) : Prop :=
  (reads.length : Int) = next ∧
    ∀ (i : Nat) (p : Int × V), reads[i]? = some p →
      p.1 = i ∧ Readable p.1 ∧ log p.1 = some p.2

/-- What a consumer knows whose own sequence holds `q`. -/
def Holds (b : Barrier ι) (Reached Seen Readable : Int → Prop) (values : ι → Int)
    (log : Int → Option V) (q : Int) (l : Consumer ι V) : Prop :=
  match l.pc with
  | .idle => ReadsInOrder log Readable l.reads (q + 1)
  | .waiting call =>
    ReadsInOrder log Readable l.reads (q + 1) ∧ call.Knows b Reached Seen values (q + 1)
  | .reading next h =>
    ReadsInOrder log Readable l.reads next ∧ q < next ∧ next ≤ h + 1 ∧
      ∀ s, q < s → s ≤ h → Readable s

variable {b : Barrier ι} {view : WaitView ι} {get : Int → V} {q : Int} {l l' : Consumer ι V}
  {choice : WaitChoice} {set : Option Int} {log log' : Int → Option V} {values values' : ι → Int}
  {Reached Reached' Seen Seen' Readable Readable' : Int → Prop}

lemma ReadsInOrder.mono {reads : List (Int × V)} {next : Int}
    (h : ReadsInOrder log Readable reads next)
    (hr : ∀ s, Readable s → Readable' s ∧ log' s = log s) :
    ReadsInOrder log' Readable' reads next := by
  refine ⟨h.1, ?_⟩
  intro i p hp
  obtain ⟨hi, hreadable, hlog⟩ := h.2 i p hp
  obtain ⟨hreadable', heq⟩ := hr p.1 hreadable
  exact ⟨hi, hreadable', heq.trans hlog⟩

/-- Reading the next sequence. -/
lemma ReadsInOrder.concat {reads : List (Int × V)} {next : Int} {v : V}
    (h : ReadsInOrder log Readable reads next) (hr : Readable next) (hv : log next = some v) :
    ReadsInOrder log Readable (reads ++ [(next, v)]) (next + 1) := by
  refine ⟨by simp [h.1], ?_⟩
  intro i p hp
  by_cases hi : i < reads.length
  · rw [List.getElem?_append_left hi] at hp
    exact h.2 i p hp
  · rw [List.getElem?_append_right (by omega), List.getElem?_singleton] at hp
    split_ifs at hp with hzero
    obtain rfl := Option.some.inj hp
    refine ⟨?_, hr, hv⟩
    have := h.1
    simp only
    omega

/-- What a consumer knows stays known while the others move. -/
lemma Holds.mono (h : l.Holds b Reached Seen Readable values log q)
    (hreached : ∀ a, Reached a → Reached' a) (hseen : ∀ s, Seen s → Seen' s)
    (hv : ∀ i ∈ b.dependentSequences, values i ≤ values' i)
    (hr : ∀ s, Readable s → Readable' s ∧ log' s = log s) :
    l.Holds b Reached' Seen' Readable' values' log' q := by
  unfold Holds at h ⊢
  cases hpc : l.pc with
  | idle =>
    rw [hpc] at h
    exact h.mono hr
  | waiting call =>
    rw [hpc] at h
    exact ⟨h.1.mono hr, h.2.mono hreached hseen hv⟩
  | reading next hi =>
    rw [hpc] at h
    obtain ⟨hreads, hlt, hle, hreadable⟩ := h
    exact ⟨hreads.mono hr, hlt, hle, fun s hs hs' => (hr s (hreadable s hs hs')).1⟩

/-- What a barrier has to give its consumer: whatever it answers, the sequences up to the answer
are readable, and reading them gives what was recorded. -/
structure Serves (b : Barrier ι) (Reached Seen Readable : Int → Prop) (view : WaitView ι)
    (log : Int → Option V) (get : Int → V) (q : Int) : Prop where
  reached : Reached view.cursor
  reached_of_le : ∀ a a', Reached a → a' ≤ a → Reached a'
  flag : ∀ isAvailable s, view.available = some isAvailable → q < s →
    (∀ t, q < t → t < s → Seen t) → isAvailable s = true → Seen s
  answer : ∀ h, WaitCall.Answers b Reached Seen view (q + 1) h →
    ∀ s, q < s → s ≤ h → Readable s
  get : ∀ s, q < s → Readable s → log s = some (get s)

/-- A step that leaves the consumer's own sequence alone. -/
lemma Holds.step (h : l.Holds b Reached Seen Readable view.values log q)
    (hserves : Serves b Reached Seen Readable view log get q)
    (hs : l.step b view get q choice = some (l', none)) :
    l'.Holds b Reached Seen Readable view.values log q := by
  unfold Holds at h
  unfold Consumer.step at hs
  split at hs
  · rename_i hpc
    rw [hpc] at h
    simp only [Option.some.injEq, Prod.mk.injEq, and_true] at hs
    subst hs
    exact ⟨h, trivial⟩
  · rename_i call hpc
    rw [hpc] at h
    simp only [Option.map_eq_some_iff] at hs
    obtain ⟨r, hr, hs⟩ := hs
    have hflag : ∀ isAvailable s, view.available = some isAvailable → q + 1 ≤ s →
        (∀ t, q + 1 ≤ t → t < s → Seen t) → isAvailable s = true → Seen s := by
      intro isAvailable s ha hqs hseen
      exact hserves.flag isAvailable s ha (by omega) fun t ht => hseen t (by omega)
    match r with
    | .inl call' =>
      simp only [Prod.mk.injEq, and_true] at hs
      subst hs
      exact ⟨h.1, WaitCall.step_knows h.2 hserves.reached hflag hr⟩
    | .inr (.ok hi) =>
      simp only [Prod.mk.injEq, and_true] at hs
      subst hs
      have hanswer := WaitCall.step_answers h.2 hserves.reached hserves.reached_of_le hr
      have hle := hanswer.sequence_le
      exact ⟨h.1, by omega, by omega, hserves.answer hi hanswer⟩
    | .inr (.error e) =>
      simp only [Prod.mk.injEq, and_true] at hs
      subst hs
      exact h.1
  · rename_i next hi hpc
    rw [hpc] at h
    obtain ⟨hreads, hlt, hle, hreadable⟩ := h
    split_ifs at hs with hmore
    · simp only [Option.some.injEq, Prod.mk.injEq, and_true] at hs
      subst hs
      have hnext := hreadable next hlt hmore
      exact ⟨hreads.concat hnext (hserves.get next hlt hnext), by omega, by omega, hreadable⟩
    · simp at hs

/-- A step that sets the consumer's own sequence: everything up to it was readable and has been
read. -/
lemma Holds.step_set {hi : Int} (h : l.Holds b Reached Seen Readable values log q)
    (hs : l.step b view get q choice = some (l', some hi)) :
    q ≤ hi ∧ (∀ s, q < s → s ≤ hi → Readable s) ∧
      ∀ values', l'.Holds b Reached Seen Readable values' log hi := by
  unfold Holds at h
  unfold Consumer.step at hs
  split at hs
  · simp at hs
  · simp only [Option.map_eq_some_iff] at hs
    obtain ⟨r, -, hs⟩ := hs
    match r with
    | .inl call' => simp at hs
    | .inr (.ok hi) => simp at hs
    | .inr (.error e) => simp at hs
  · rename_i next hi' hpc
    rw [hpc] at h
    obtain ⟨hreads, hlt, hle, hreadable⟩ := h
    split_ifs at hs with hmore
    · simp at hs
    · simp only [Option.some.injEq, Prod.mk.injEq] at hs
      obtain ⟨rfl, rfl⟩ := hs
      refine ⟨by omega, hreadable, ?_⟩
      intro values'
      obtain rfl : next = hi' + 1 := by omega
      exact hreads

/-- A step reads the next sequence, or leaves the history of reads alone. -/
lemma step_reads (hs : l.step b view get q choice = some (l', set)) :
    l'.reads = l.reads ∨
      ∃ next h, l.pc = .reading next h ∧ next ≤ h ∧ set = none ∧
        l'.reads = l.reads ++ [(next, get next)] := by
  unfold Consumer.step at hs
  split at hs
  · obtain ⟨rfl, -⟩ := Prod.mk.inj (Option.some.inj hs)
    exact Or.inl rfl
  · simp only [Option.map_eq_some_iff] at hs
    obtain ⟨r, -, hs⟩ := hs
    match r with
    | .inl call' | .inr (.ok h) | .inr (.error e) =>
      obtain ⟨rfl, -⟩ := Prod.mk.inj hs
      exact Or.inl rfl
  · rename_i next h hpc
    split_ifs at hs with hmore
    · obtain ⟨rfl, rfl⟩ := Prod.mk.inj (Option.some.inj hs)
      exact Or.inr ⟨next, h, hpc, hmore, rfl, rfl⟩
    · obtain ⟨rfl, -⟩ := Prod.mk.inj (Option.some.inj hs)
      exact Or.inl rfl

/-- Whatever the consumer is at, it has read a beginning of the recorded sequences. -/
lemma Holds.readsInOrder (h : l.Holds b Reached Seen Readable values log q) :
    ∃ next, ReadsInOrder log Readable l.reads next := by
  unfold Holds at h
  split at h
  · exact ⟨_, h⟩
  · exact ⟨_, h.1⟩
  · exact ⟨_, h.1⟩

end Consumer

end Disruptor
