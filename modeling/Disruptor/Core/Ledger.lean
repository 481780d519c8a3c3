import Mathlib.Algebra.Order.Group.Unbundled.Int
import Mathlib.Tactic.Common

/-!
# A ledger of claims

Agents take ranges of consecutive positions off a counter. An agent holds what it has taken, until
it settles it, from the low end up. At any time every position below the counter is settled or held
by one agent.
-/

namespace Disruptor.Core

/-- It holds of every position up to `a`. -/
def Upto (Seen : Int → Prop) (a : Int) : Prop := ∀ t, 0 ≤ t → t ≤ a → Seen t

lemma Upto.mono {Seen Seen' : Int → Prop} {a a' : Int} (h : Upto Seen a) (hle : a' ≤ a)
    (hseen : ∀ t, Seen t → Seen' t) : Upto Seen' a' :=
  fun t ht ht' => hseen t (h t ht (ht'.trans hle))

/-- The positions of a range. -/
def Covers (range : Option (Int × Int)) (s : Int) : Prop :=
  ∃ lo hi, range = some (lo, hi) ∧ lo ≤ s ∧ s ≤ hi

@[simp] lemma not_covers_none (s : Int) : ¬ Covers none s := by simp [Covers]

@[simp] lemma covers_some {lo hi s : Int} : Covers (some (lo, hi)) s ↔ lo ≤ s ∧ s ≤ hi := by
  simp [Covers]

/-- The highest position that was taken, what is settled, and what each agent holds. -/
structure Ledger (A : Type*) where
  claimed : Int
  settled : Int → Prop
  held : A → Option (Int × Int)

namespace Ledger

variable {A : Type*} {l l' : Ledger A}

/-- What may happen to a ledger. -/
inductive Step (l l' : Ledger A) : Prop
  | keep (hclaimed : l'.claimed = l.claimed) (hsettled : ∀ s, l'.settled s ↔ l.settled s)
      (hheld : ∀ a s, Covers (l'.held a) s ↔ Covers (l.held a) s)
  | take (a : A) (hlt : l.claimed ≤ l'.claimed) (hsettled : ∀ s, l'.settled s ↔ l.settled s)
      (hnone : l.held a = none) (hheld : l'.held a = some (l.claimed + 1, l'.claimed))
      (hothers : ∀ b, b ≠ a → l'.held b = l.held b)
  | settle (a : A) (lo mid hi : Int) (hclaimed : l'.claimed = l.claimed)
      (hmid : mid ≤ hi) (hheld : l.held a = some (lo, hi))
      (hsettled : ∀ s, l'.settled s ↔ l.settled s ∨ (lo ≤ s ∧ s ≤ mid))
      (hleft : ∀ s, Covers (l'.held a) s ↔ mid < s ∧ lo ≤ s ∧ s ≤ hi)
      (hothers : ∀ b, b ≠ a → l'.held b = l.held b)

/-- Every position below the counter is settled or held, by one agent. -/
structure Balanced (l : Ledger A) : Prop where
  claimed_ge : -1 ≤ l.claimed
  within : ∀ a s, Covers (l.held a) s → 0 ≤ s ∧ s ≤ l.claimed ∧ ¬ l.settled s
  disjoint : ∀ a b s, Covers (l.held a) s → Covers (l.held b) s → a = b
  settled_range : ∀ s, l.settled s → 0 ≤ s ∧ s ≤ l.claimed
  accounted : ∀ s, 0 ≤ s → s ≤ l.claimed → l.settled s ∨ ∃ a, Covers (l.held a) s

/-- Nothing is taken. -/
def empty (A : Type*) : Ledger A := ⟨-1, fun _ => False, fun _ => none⟩

lemma balanced_empty : (empty A).Balanced where
  claimed_ge := le_rfl
  within := by simp [empty]
  disjoint := by simp [empty]
  settled_range := by simp [empty]
  accounted := by
    intro s hs hs'
    simp only [empty] at hs'
    omega

lemma Balanced.take (h : l.Balanced) {a : A} (hlt : l.claimed ≤ l'.claimed)
    (hsettled : ∀ s, l'.settled s ↔ l.settled s) (hnone : l.held a = none)
    (hheld : l'.held a = some (l.claimed + 1, l'.claimed))
    (hothers : ∀ b, b ≠ a → l'.held b = l.held b) : l'.Balanced := by
  have hge := h.claimed_ge
  -- an agent holds what it held, or is the one that takes
  have hcases : ∀ b s, Covers (l'.held b) s →
      Covers (l.held b) s ∨ b = a ∧ l.claimed < s ∧ s ≤ l'.claimed := by
    intro b s hs
    by_cases hb : b = a
    · subst hb
      rw [hheld, covers_some] at hs
      exact Or.inr ⟨rfl, by omega, hs.2⟩
    · rw [hothers b hb] at hs
      exact Or.inl hs
  refine ⟨hge.trans hlt, ?_, ?_, ?_, ?_⟩
  · intro b s hs
    rw [hsettled]
    rcases hcases b s hs with hold | ⟨-, hlo, hhi⟩
    · obtain ⟨hnonneg, hle, hnot⟩ := h.within b s hold
      exact ⟨hnonneg, hle.trans hlt, hnot⟩
    · refine ⟨by omega, hhi, ?_⟩
      intro hs'
      have hle := (h.settled_range s hs').2
      omega
  · intro b c s hb hc
    rcases hcases b s hb with hb | ⟨rfl, hlo, -⟩
    · rcases hcases c s hc with hc | ⟨-, hlo, -⟩
      · exact h.disjoint b c s hb hc
      · have hle := (h.within b s hb).2.1
        omega
    · rcases hcases c s hc with hc | ⟨rfl, -, -⟩
      · have hle := (h.within c s hc).2.1
        omega
      · rfl
  · intro s hs
    obtain ⟨hnonneg, hle⟩ := h.settled_range s ((hsettled s).mp hs)
    exact ⟨hnonneg, hle.trans hlt⟩
  · intro s hs hs'
    rw [hsettled]
    by_cases hold : s ≤ l.claimed
    · refine (h.accounted s hs hold).imp_right ?_
      rintro ⟨b, hb⟩
      refine ⟨b, ?_⟩
      have hne : b ≠ a := by
        rintro rfl
        simp [hnone] at hb
      rw [hothers b hne]
      exact hb
    · refine Or.inr ⟨a, ?_⟩
      rw [hheld, covers_some]
      exact ⟨by omega, hs'⟩

lemma Balanced.settle (h : l.Balanced) {a : A} {lo mid hi : Int}
    (hclaimed : l'.claimed = l.claimed) (hmid : mid ≤ hi) (hheld : l.held a = some (lo, hi))
    (hsettled : ∀ s, l'.settled s ↔ l.settled s ∨ (lo ≤ s ∧ s ≤ mid))
    (hleft : ∀ s, Covers (l'.held a) s ↔ mid < s ∧ lo ≤ s ∧ s ≤ hi)
    (hothers : ∀ b, b ≠ a → l'.held b = l.held b) : l'.Balanced := by
  have hold : ∀ s, lo ≤ s → s ≤ hi → Covers (l.held a) s := by
    intro s hs hs'
    rw [hheld, covers_some]
    exact ⟨hs, hs'⟩
  -- no agent holds more than it did
  have hless : ∀ b s, Covers (l'.held b) s → Covers (l.held b) s := by
    intro b s hs
    by_cases hb : b = a
    · subst hb
      obtain ⟨-, hlo, hhi⟩ := (hleft s).mp hs
      exact hold s hlo hhi
    · rw [hothers b hb] at hs
      exact hs
  refine ⟨hclaimed ▸ h.claimed_ge, ?_, ?_, ?_, ?_⟩
  · intro b s hs
    obtain ⟨hnonneg, hle, hnot⟩ := h.within b s (hless b s hs)
    refine ⟨hnonneg, hclaimed ▸ hle, ?_⟩
    rw [hsettled]
    rintro (hs' | ⟨hlo, hs'⟩)
    · exact hnot hs'
    · have heq := h.disjoint b a s (hless b s hs) (hold s hlo (hs'.trans hmid))
      subst heq
      have hlt := ((hleft s).mp hs).1
      omega
  · exact fun b c s hb hc => h.disjoint b c s (hless b s hb) (hless c s hc)
  · intro s hs
    rw [hclaimed]
    rcases (hsettled s).mp hs with hs | ⟨hlo, hs⟩
    · exact h.settled_range s hs
    · obtain ⟨hnonneg, hle, -⟩ := h.within a s (hold s hlo (hs.trans hmid))
      exact ⟨hnonneg, hle⟩
  · intro s hs hs'
    rw [hsettled]
    rcases h.accounted s hs (hclaimed ▸ hs') with hs | ⟨b, hb⟩
    · exact Or.inl (Or.inl hs)
    · by_cases hne : b = a
      · subst hne
        rw [hheld, covers_some] at hb
        by_cases hle : s ≤ mid
        · exact Or.inl (Or.inr ⟨hb.1, hle⟩)
        · exact Or.inr ⟨b, (hleft s).mpr ⟨by omega, hb.1, hb.2⟩⟩
      · refine Or.inr ⟨b, ?_⟩
        rw [hothers b hne]
        exact hb

/-- Every step keeps the balance. -/
theorem Balanced.step (h : l.Balanced) (hs : Step l l') : l'.Balanced := by
  cases hs with
  | keep hclaimed hsettled hheld =>
    refine ⟨hclaimed ▸ h.claimed_ge, ?_, ?_, ?_, ?_⟩
    · intro a s hs
      rw [hclaimed, hsettled]
      exact h.within a s ((hheld a s).mp hs)
    · exact fun a b s ha hb => h.disjoint a b s ((hheld a s).mp ha) ((hheld b s).mp hb)
    · intro s hs
      rw [hclaimed]
      exact h.settled_range s ((hsettled s).mp hs)
    · intro s hs hs'
      rw [hsettled]
      refine (h.accounted s hs (hclaimed ▸ hs')).imp_right ?_
      rintro ⟨a, ha⟩
      exact ⟨a, (hheld a s).mpr ha⟩
  | take a hlt hsettled hnone hheld hothers => exact h.take hlt hsettled hnone hheld hothers
  | settle a lo mid hi hclaimed hmid hheld hsettled hleft hothers =>
    exact h.settle hclaimed hmid hheld hsettled hleft hothers

/-- When nothing is held below `b`, everything below it is settled. -/
lemma Balanced.upto (h : l.Balanced) {b : Int} (hle : b ≤ l.claimed)
    (hnone : ∀ a s, Covers (l.held a) s → b < s) : Upto l.settled b := by
  intro s hs hs'
  refine (h.accounted s hs (hs'.trans hle)).resolve_right ?_
  rintro ⟨a, ha⟩
  exact absurd (hnone a s ha) (not_lt.mpr hs')

end Ledger

end Disruptor.Core
