import Disruptor.Dsl.Safety
import Disruptor.Sequencer.Signals

/-!
# What the producers hold

Every sequence that was claimed is published, or is held by one producer, who has yet to publish
it. What the readers are told of the published sequences is so.
-/

namespace Disruptor.Dsl

open Disruptor.Core

variable {H X P A : Type} {s s' : Shared H X}

/-! ### Published sequences -/

instance (ranges : List (Int × Int)) (sequence : Int) : Decidable (InRanges ranges sequence) :=
  inferInstanceAs (Decidable (∃ range ∈ ranges, _))

@[simp] lemma not_inRanges_nil (sequence : Int) : ¬ InRanges [] sequence := by simp [InRanges]

lemma inRanges_cons {range : Int × Int} {ranges : List (Int × Int)} {sequence : Int} :
    InRanges (range :: ranges) sequence ↔
      InRanges ranges sequence ∨ range.1 ≤ sequence ∧ sequence ≤ range.2 := by
  simp [InRanges, or_comm]

/-- The sequence has been published. -/
def Shared.IsPublished (s : Shared H X) : Int → Prop := InRanges s.published

/-- What `IsPublished` decides. -/
def Shared.isPublished (s : Shared H X) (sequence : Int) : Bool :=
  decide (InRanges s.published sequence)

@[simp] lemma Shared.isPublished_eq_true {sequence : Int} :
    s.isPublished sequence = true ↔ s.IsPublished sequence := by
  simp [isPublished, IsPublished]

@[simp] lemma Shared.isPublished_eq_false {sequence : Int} :
    s.isPublished sequence = false ↔ ¬ s.IsPublished sequence := by
  simp [isPublished, IsPublished]

/-! ### The steps of a producer -/

/-- The range that a producer has claimed and has still to publish. -/
def Client.range : Client X → Option (Int × Int)
  | .idle => none
  | .claiming call => call.taken
  | .translating lo hi | .publishing lo hi => some (lo, hi)

/-- What a producer is to claim, or was granted, is no longer than the buffer. -/
def Client.Fits (s : Shared H X) : Client X → Prop
  | .idle => True
  | .claiming call => call.Fits s.sequencer
  | .translating lo hi | .publishing lo hi =>
    hi - lo < s.sequencer.bufferSize.size ∧ ∃ range ∈ s.granted, hi ≤ range.2

/-- The translator of a single event returns. -/
def ClientAction.Returns (a : ClientAction) (c : Client X) : Prop :=
  ∀ lo, c = .translating lo lo → a ≠ .translate false

/-- What a step of a producer does with what it holds. -/
inductive ClientMove (s s' : Shared H X) (c c' : Client X) : Prop
  | claims (r : ClaimResult (Sequencer.ClaimCall (ProcessorId X))) (q : Sequencer (ProcessorId X))
      (htakes : s.sequencer.Takes q c.range r) (hwithin : s.sequencer.WithinBuffer r)
      (hfences : s.sequencer.Fences q)
      (hnone : ∀ q', s.sequencer = .single q' → c.range = none)
      (hs : s' = (s.afterClaim (r, q)).1) (hc : c' = .ofResult r)
  | translates (lo hi : Int) (hs : s' = s) (hc : c = .translating lo hi)
      (hc' : c' = .publishing lo hi)
  | publishes (l hi : Int) (q : Sequencer (ProcessorId X)) (range : Int × Int) (returned : Bool)
      (hle : l ≤ hi) (hc : c = .publishing l hi)
      (hpublish : s.sequencer.publishStep l hi = (q, range, returned))
      (hs : s' = { s.setSequencer q with published := range :: s.published })
      (hc' : c' = if returned then .idle else .publishing (l + 1) hi)

lemma Shared.Inv.clientMove (h : s.Inv) {c c' : Client X} {a : ClientAction} (hc : c.Holds s)
    (hfits : c.Fits s) (hreturns : a.Returns c) (hs : Dsl.clientStep s c a = some (s', c')) :
    ClientMove s s' c c' := by
  unfold Dsl.clientStep at hs
  split at hs
  · rename_i op
    split_ifs at hs
    obtain ⟨rfl, rfl⟩ := Prod.mk.inj (Option.some.inj hs)
    obtain ⟨htakes, hwithin, hfences⟩ := h.consistent.enter_takes rfl
    exact .claims _ _ htakes hwithin hfences (fun _ _ => rfl) rfl rfl
  · rename_i call spurious
    simp only [Option.map_eq_some_iff] at hs
    obtain ⟨⟨r, q⟩, hcall, heq⟩ := hs
    obtain ⟨rfl, rfl⟩ := Prod.mk.inj heq
    obtain ⟨htakes, hwithin, hfences⟩ := h.consistent.callStep_takes hc hfits hcall
    refine .claims r q htakes hwithin hfences ?_ rfl rfl
    intro q' hq
    cases call with
    | single call => rfl
    | multi call =>
      obtain ⟨m, hm, -⟩ := hc
      cases hq.symm.trans hm
  · rename_i lo hi returns
    split_ifs at hs with hthrown
    · obtain ⟨rfl, rfl⟩ := hthrown
      exact absurd rfl (hreturns lo rfl)
    · obtain ⟨rfl, rfl⟩ := Prod.mk.inj (Option.some.inj hs)
      exact .translates lo hi rfl rfl rfl
  · obtain ⟨rfl, rfl⟩ := Prod.mk.inj (Option.some.inj hs)
    exact .publishes _ _ _ _ _ hc.1 rfl rfl rfl rfl
  · cases hs

lemma ClientMove.published_mono {c c' : Client X} (h : ClientMove s s' c c') {t : Int}
    (ht : s.IsPublished t) : s'.IsPublished t := by
  cases h with
  | claims r q htakes hwithin hfences hnone hs => exact hs ▸ ht
  | translates lo hi hs => exact hs ▸ ht
  | publishes l hi q range returned hle hc hpublish hs =>
    subst hs
    exact inRanges_cons.mpr (Or.inl ht)

lemma ClientMove.available_isSome {c c' : Client X} (h : ClientMove s s' c c') :
    s'.sequencer.available.isSome = s.sequencer.available.isSome := by
  cases h with
  | claims r q htakes hwithin hfences hnone hs =>
    subst hs
    exact hfences.available_isSome
  | translates lo hi hs => rw [hs]
  | publishes l hi q range returned hle hc hpublish hs =>
    subst hs
    show q.available.isSome = _
    revert hpublish
    cases s.sequencer <;> rintro ⟨⟩ <;> simp [Sequencer.available]

/-! ### The ledger -/

/-- What was claimed, what is published, and what each of the producers holds. -/
def Shared.ledger (s : Shared H X) (clients : A → Client X) : Ledger A where
  claimed := s.sequencer.claimed
  settled := s.IsPublished
  held a := (clients a).range

variable [DecidableEq A] {clients : A → Client X} {a : A} {c' : Client X}

/-- What publishing makes available. -/
lemma publishStep_range {ι : Type*} {q q' : Sequencer ι} {l hi : Int} {range : Int × Int}
    {returned : Bool} (hle : l ≤ hi) (hs : q.publishStep l hi = (q', range, returned)) :
    q'.claimed = q.claimed ∧ q'.bufferSize = q.bufferSize ∧ range.1 = l ∧ l ≤ range.2 ∧
      range.2 ≤ hi ∧ (returned = true → range.2 = hi) ∧ (returned = false → range.2 = l) := by
  cases q with
  | single s =>
    simp only [Sequencer.publishStep, Prod.mk.injEq] at hs
    obtain ⟨rfl, rfl, rfl⟩ := hs
    exact ⟨rfl, rfl, rfl, hle, le_rfl, fun _ => rfl, by simp⟩
  | multi m =>
    simp only [Sequencer.publishStep, Prod.mk.injEq] at hs
    obtain ⟨rfl, rfl, rfl⟩ := hs
    refine ⟨rfl, rfl, rfl, le_rfl, hle, ?_, fun _ => rfl⟩
    intro hreturned
    simp only [decide_eq_true_eq] at hreturned
    omega

/-- A step of a producer is one of the ledger. -/
lemma ClientMove.ledger_step (h : ClientMove s s' (clients a) c') :
    (s.ledger clients).Step (s'.ledger (Function.update clients a c')) := by
  have hothers : ∀ b, b ≠ a → (s'.ledger (Function.update clients a c')).held b =
      (s.ledger clients).held b := by
    intro b hb
    simp [Shared.ledger, Function.update_of_ne hb]
  have hself : (s'.ledger (Function.update clients a c')).held a = c'.range := by
    simp [Shared.ledger]
  have hkeep : c'.range = (clients a).range →
      ∀ b t, Covers ((s'.ledger (Function.update clients a c')).held b) t ↔
        Covers ((s.ledger clients).held b) t := by
    intro hrange b t
    by_cases hb : b = a
    · subst hb
      rw [hself, hrange]
      rfl
    · rw [hothers b hb]
  cases h with
  | claims r q htakes hwithin hfences hnone hs hc =>
    subst hs hc
    cases r with
    | running call =>
      rcases htakes with ⟨hclaimed, htaken⟩ | ⟨hnone, hle, htaken⟩
      · exact .keep hclaimed (fun _ => Iff.rfl) (hkeep htaken)
      · exact .take a hle (fun _ => Iff.rfl) hnone (hself.trans htaken) hothers
    | claimed lo hi =>
      rcases htakes with ⟨hclaimed, htaken⟩ | ⟨hnone, hle, rfl, rfl⟩
      · exact .keep hclaimed (fun _ => Iff.rfl) (hkeep htaken.symm)
      · exact .take a hle (fun _ => Iff.rfl) hnone hself hothers
    | ended =>
      obtain ⟨htaken, hclaimed⟩ := htakes
      exact .keep hclaimed (fun _ => Iff.rfl) (hkeep htaken.symm)
  | translates lo hi hs hc hc' =>
    subst hs hc'
    refine .keep rfl (fun _ => Iff.rfl) (hkeep ?_)
    rw [hc]
    rfl
  | publishes l hi q range returned hle hc hpublish hs hc' =>
    obtain ⟨hclaimed, -, hfirst, hge, hlast, hreturned, hmore⟩ := publishStep_range hle hpublish
    subst hs
    refine .settle a l range.2 hi hclaimed hlast (congrArg Client.range hc) ?_ ?_ hothers
    · intro t
      rw [← hfirst]
      exact inRanges_cons
    · intro t
      rw [hself, hc']
      cases returned with
      | true =>
        have heq := hreturned rfl
        simp only [if_true, Client.range, not_covers_none, false_iff]
        omega
      | false =>
        have heq := hmore rfl
        simp only [Bool.false_eq_true, if_false, Client.range, covers_some]
        omega

/-! ### What the producers and their readers rely on -/

/-- The claims of the producers, and what the readers are told. -/
structure Shared.Accounts (s : Shared H X) (clients : A → Client X) : Prop where
  cursor_ge : INITIAL_VALUE ≤ s.sequencer.getCursor
  balanced : (s.ledger clients).Balanced
  fits : ∀ a, (clients a).Fits s
  granted_le : ∀ range ∈ s.granted, range.2 ≤ s.sequencer.claimed
  published_granted : ∀ t, s.IsPublished t → ∃ range ∈ s.granted, t ≤ range.2
  roomy : Sequencer.Roomy s.sequencer.bufferSize s.isPublished s.granted
  tells : s.sequencer.Tells s.isPublished

lemma Client.Fits.mono {c : Client X} (h : c.Fits s)
    (hsize : s'.sequencer.bufferSize = s.sequencer.bufferSize)
    (hmulti : ∀ m, s'.sequencer = .multi m → ∃ m', s.sequencer = .multi m')
    (hgranted : ∀ range ∈ s.granted, range ∈ s'.granted) : c.Fits s' := by
  cases c with
  | idle => trivial
  | claiming call => exact Sequencer.ClaimCall.Fits.of_bufferSize h hsize hmulti
  | translating lo hi | publishing lo hi =>
    obtain ⟨hfits, range, hrange, hle⟩ := h
    exact ⟨hsize ▸ hfits, range, hgranted range hrange, hle⟩

omit [DecidableEq A] in
/-- Nothing that is published is a lap ahead of a sequence that is not. -/
lemma Shared.Accounts.lt_of_published (h : s.Accounts clients) {l t : Int} (hl : 0 ≤ l)
    (hnot : ¬ s.IsPublished l) (ht : s.IsPublished t) :
    t < l + s.sequencer.bufferSize.size := by
  obtain ⟨range, hrange, hle⟩ := h.published_granted t ht
  exact hle.trans_lt (h.roomy l hl (Shared.isPublished_eq_false.mpr hnot) range hrange)

/-- A claim that is granted leaves room for what is not published yet: the gating sequences are
past it, or nobody else holds anything. -/
lemma Shared.Accounts.roomy_grant (h : s.Accounts clients) {lo hi : Int}
    (hbalanced : (s'.ledger (Function.update clients a (.translating lo hi))).Balanced)
    (hpublished : s'.published = s.published) (hfits : hi - lo < s.sequencer.bufferSize.size)
    (hle : hi ≤ s'.sequencer.claimed)
    (hroom : ∀ i, some i ∈ s.sequencer.gatingList →
      hi - s.sequencer.bufferSize.size ≤ s.values i)
    (hwatched : (∀ b, b ≠ a → clients b = .idle) ∨ ∃ i, some i ∈ s.sequencer.gatingList)
    (hvalues : ∀ i, Upto s.IsPublished (s.values i)) :
    Sequencer.Roomy s.sequencer.bufferSize s.isPublished ((lo, hi) :: s.granted) := by
  intro u hu hnot
  refine List.forall_mem_cons.mpr ⟨?_, h.roomy u hu hnot⟩
  rw [Shared.isPublished_eq_false] at hnot
  show hi < _
  by_contra hlap
  rcases hwatched with hidle | ⟨i, hi'⟩
  · -- whoever holds the sequence is the producer itself
    have hnot' : ¬ (s'.ledger (Function.update clients a (.translating lo hi))).settled u := by
      show ¬ InRanges s'.published u
      rw [hpublished]
      exact hnot
    have hsize := s.sequencer.bufferSize.size_pos
    obtain ⟨b, hb⟩ := (hbalanced.accounted u hu (by simp only [Shared.ledger]; omega)).resolve_left
      hnot'
    by_cases hba : b = a
    · subst hba
      simp only [Shared.ledger, Function.update_self, Client.range, covers_some] at hb
      omega
    · simp [Shared.ledger, Function.update_of_ne hba, hidle b hba, Client.range] at hb
  · have hle' := hroom i hi'
    exact hnot (hvalues i u hu (by omega))

lemma Shared.Accounts.claims (h : s.Accounts clients)
    {r : ClaimResult (Sequencer.ClaimCall (ProcessorId X))} {q : Sequencer (ProcessorId X)}
    (htakes : s.sequencer.Takes q (clients a).range r) (hwithin : s.sequencer.WithinBuffer r)
    (hfences : s.sequencer.Fences q)
    (hnone : ∀ q', s.sequencer = .single q' → (clients a).range = none)
    (hstep : ClientStep s (s.afterClaim (r, q)).1 (.ofResult r))
    (hbalanced : ((s.afterClaim (r, q)).1.ledger
      (Function.update clients a (.ofResult r))).Balanced)
    (hothers : ∀ q', s.sequencer = .single q' → ∀ b, b ≠ a → clients b = .idle)
    (hwatched : (∀ b, b ≠ a → clients b = .idle) ∨ ∃ i, some i ∈ s.sequencer.gatingList)
    (hvalues : ∀ i, Upto s.IsPublished (s.values i)) :
    (s.afterClaim (r, q)).1.Accounts (Function.update clients a (.ofResult r)) := by
  have hsize : q.bufferSize = s.sequencer.bufferSize := hstep.moves.bufferSize
  have hclaimed := htakes.claimed_le
  have hmulti : ∀ m, q = .multi m → ∃ m', s.sequencer = .multi m' :=
    fun m hm => hfences.exists_multi hm
  have hgranted : ∀ range ∈ s.granted, range ∈ (s.afterClaim (r, q)).1.granted := by
    intro range hrange
    cases r with
    | claimed lo hi => exact List.mem_cons_of_mem _ hrange
    | _ => exact hrange
  refine ⟨h.cursor_ge.trans hstep.moves.getCursor, hbalanced, ?_, ?_, ?_, ?_, ?_⟩
  · intro b
    by_cases hb : b = a
    · subst hb
      rw [Function.update_self]
      cases r with
      | running call => exact Sequencer.ClaimCall.Fits.of_bufferSize hwithin hsize hmulti
      | claimed lo hi =>
        refine ⟨?_, (lo, hi), List.mem_cons_self, le_rfl⟩
        show hi - lo < q.bufferSize.size
        rw [hsize]
        exact hwithin
      | ended => trivial
    · rw [Function.update_of_ne hb]
      exact (h.fits b).mono hsize hmulti hgranted
  · intro range hrange
    have hold : range ∈ s.granted → range.2 ≤ q.claimed :=
      fun hmem => (h.granted_le range hmem).trans hclaimed
    cases r with
    | claimed lo hi =>
      rcases List.mem_cons.mp hrange with rfl | hmem
      · exact Sequencer.Claimed.le hstep.holds.2
      · exact hold hmem
    | _ => exact hold hrange
  · intro t ht
    obtain ⟨range, hrange, hle⟩ := h.published_granted t ht
    exact ⟨range, hgranted range hrange, hle⟩
  · show Sequencer.Roomy q.bufferSize s.isPublished _
    rw [hsize]
    cases r with
    | claimed lo hi =>
      obtain ⟨lo', hi', hcons, hroom⟩ := hstep.granted.resolve_left (by simp [Shared.afterClaim])
      obtain ⟨heq, -⟩ := List.cons.inj hcons
      obtain ⟨rfl, rfl⟩ := Prod.mk.inj heq
      exact h.roomy_grant hbalanced rfl hwithin (Sequencer.Claimed.le hstep.holds.2) hroom
        hwatched hvalues
    | _ => exact h.roomy
  · refine Sequencer.Tells.fences h.tells hfences ?_
    intro q' hq
    refine (h.balanced.upto (b := q'.nextValue) ?_ ?_).mono le_rfl fun t => ?_
    · simp [Shared.ledger, hq, Sequencer.claimed]
    · intro b t hcovers
      by_cases hb : b = a
      · subst hb
        simp [Shared.ledger, hnone q' hq] at hcovers
      · simp [Shared.ledger, hothers q' hq b hb, Client.range] at hcovers
    · exact Shared.isPublished_eq_true.mpr

lemma Shared.Accounts.publishes (h : s.Accounts clients) {l hi : Int}
    {q : Sequencer (ProcessorId X)} {range : Int × Int} {returned : Bool} (hle : l ≤ hi)
    (hc : clients a = .publishing l hi)
    (hpublish : s.sequencer.publishStep l hi = (q, range, returned))
    (hcursor : s.sequencer.getCursor ≤ q.getCursor)
    (hbalanced : (({ s.setSequencer q with published := range :: s.published } :
      Shared H X).ledger (Function.update clients a
        (if returned then .idle else .publishing (l + 1) hi))).Balanced)
    (hothers : ∀ q', s.sequencer = .single q' → ∀ b, b ≠ a → clients b = .idle) :
    ({ s.setSequencer q with published := range :: s.published } : Shared H X).Accounts
      (Function.update clients a (if returned then .idle else .publishing (l + 1) hi)) := by
  obtain ⟨hclaimed, hsize, hfirst, hge, hlast, -, -⟩ := publishStep_range hle hpublish
  have hheld : (s.ledger clients).held a = some (l, hi) := congrArg Client.range hc
  obtain ⟨hl, hlc, hnot⟩ := h.balanced.within a l (by rw [hheld, covers_some]; exact ⟨le_rfl, hle⟩)
  obtain ⟨hfits, last, hlast', hle'⟩ : hi - l < s.sequencer.bufferSize.size ∧
      ∃ last ∈ s.granted, hi ≤ last.2 := by
    have hfits := h.fits a
    rw [hc] at hfits
    exact hfits
  have hmulti : ∀ m, q = .multi m → ∃ m', s.sequencer = .multi m' := by
    intro m hm
    cases hq : s.sequencer with
    | single q' =>
      rw [hq] at hpublish
      obtain ⟨rfl, -⟩ := Prod.mk.inj hpublish
      cases hm
    | multi m' => exact ⟨m', rfl⟩
  refine ⟨h.cursor_ge.trans hcursor, hbalanced, ?_, ?_, ?_, ?_, ?_⟩
  · intro b
    by_cases hb : b = a
    · subst hb
      rw [Function.update_self]
      cases returned with
      | true => trivial
      | false =>
        refine ⟨?_, last, hlast', hle'⟩
        show hi - (l + 1) < q.bufferSize.size
        rw [hsize]
        omega
    · rw [Function.update_of_ne hb]
      exact (h.fits b).mono hsize hmulti fun _ => id
  · exact fun r hr => (h.granted_le r hr).trans hclaimed.ge
  · intro t ht
    rcases inRanges_cons.mp ht with ht | ⟨-, ht⟩
    · exact h.published_granted t ht
    · exact ⟨last, hlast', ht.trans (hlast.trans hle')⟩
  · show Sequencer.Roomy q.bufferSize _ s.granted
    rw [hsize]
    refine Sequencer.Roomy.mono h.roomy ?_
    intro t ht
    exact Shared.isPublished_eq_true.mpr
      (inRanges_cons.mpr (Or.inl (Shared.isPublished_eq_true.mp ht)))
  · refine Sequencer.Tells.publishStep h.tells hl (Shared.isPublished_eq_false.mpr hnot) ?_ ?_ ?_
      hpublish
    · exact fun t ht => h.lt_of_published hl hnot (Shared.isPublished_eq_true.mp ht)
    · -- below its own range a single producer has published everything
      intro q' hq
      refine (h.balanced.upto (b := l - 1) ?_ ?_).mono le_rfl fun t => ?_
      · have hlc' : l ≤ (s.ledger clients).claimed := hlc
        omega
      · intro b t hcovers
        by_cases hb : b = a
        · subst hb
          rw [hheld, covers_some] at hcovers
          omega
        · simp [Shared.ledger, hothers q' hq b hb, Client.range] at hcovers
      · exact Shared.isPublished_eq_true.mpr
    · intro t
      rw [Shared.isPublished_eq_true, Shared.isPublished_eq_true]
      exact inRanges_cons

/-- A step of a producer whose translators of single events return. -/
theorem Shared.Accounts.clientStep (h : s.Accounts clients) (hstep : ClientStep s s' c')
    (hmove : ClientMove s s' (clients a) c')
    (hothers : ∀ q, s.sequencer = .single q → ∀ b, b ≠ a → clients b = .idle)
    (hwatched : (∀ b, b ≠ a → clients b = .idle) ∨ ∃ i, some i ∈ s.sequencer.gatingList)
    (hvalues : ∀ i, Upto s.IsPublished (s.values i)) :
    s'.Accounts (Function.update clients a c') := by
  have hbalanced := h.balanced.step hmove.ledger_step
  cases hmove with
  | claims r q htakes hwithin hfences hnone hs hc =>
    subst hs hc
    exact h.claims htakes hwithin hfences hnone hstep hbalanced hothers hwatched hvalues
  | translates lo hi hs hc hc' =>
    subst hs hc'
    refine ⟨h.cursor_ge, hbalanced, ?_, h.granted_le, h.published_granted, h.roomy, h.tells⟩
    intro b
    by_cases hb : b = a
    · subst hb
      have hfits := h.fits b
      rw [hc] at hfits
      rw [Function.update_self]
      exact hfits
    · rw [Function.update_of_ne hb]
      exact h.fits b
  | publishes l hi q range returned hle hc hpublish hs hc' =>
    subst hs hc'
    exact h.publishes hle hc hpublish hstep.moves.getCursor hbalanced hothers

end Disruptor.Dsl
