import Mathlib.Algebra.Order.Group.Unbundled.Int
import Mathlib.Algebra.Order.Ring.Int
import Mathlib.Logic.Function.Basic
import Mathlib.Tactic.Common

/-!
# Slots and windows

A buffer of `N` slots stores an unbounded sequence of positions, two positions sharing a slot
when they are equal modulo `N`. Two positions that are less than `N` apart share a slot only
when they are equal, so the slots can hold a window of `N` consecutive positions faithfully.
-/

namespace Disruptor.Core

variable {I V : Type*} {N : Int} {slot : Int → I}

/-- A slot for each position, shared exactly by the positions equal modulo `N`. -/
def IsSlotMap (N : Int) (slot : Int → I) : Prop :=
  ∀ s t, slot s = slot t ↔ s % N = t % N

/-- Positions less than `N` apart that share a slot are equal. -/
lemma IsSlotMap.eq_of_lt (hslot : IsSlotMap N slot) {s t : Int} (h : slot s = slot t)
    (hlt : |s - t| < N) : s = t := by
  have hdvd : N ∣ s - t :=
    Int.dvd_of_emod_eq_zero (Int.emod_eq_emod_iff_emod_sub_eq_zero.mp ((hslot s t).mp h))
  exact sub_eq_zero.mp (Int.eq_zero_of_abs_lt_dvd hdvd hlt)

/-- Two positions of one window share a slot only when they are equal. -/
lemma IsSlotMap.eq_of_window (hslot : IsSlotMap N slot) {lo s t : Int} (hs : lo < s)
    (hs' : s ≤ lo + N) (ht : lo < t) (ht' : t ≤ lo + N) (h : slot s = slot t) : s = t := by
  refine hslot.eq_of_lt h ?_
  rw [abs_lt]
  omega

/-- A position and the one a lap earlier share their slot. -/
lemma IsSlotMap.sub_lap (hslot : IsSlotMap N slot) (s : Int) : slot (s - N) = slot s :=
  (hslot _ _).mpr (Int.sub_emod_right s N)

/-- The slots hold every recorded entry of the window `(lo, lo + N]`. -/
def WindowHolds (N : Int) (slot : Int → I) (slots : I → V) (log : Int → Option V) (lo : Int) :
    Prop :=
  ∀ s v, lo < s → s ≤ lo + N → log s = some v → slots (slot s) = v

section WindowHolds

variable [DecidableEq I] {slots : I → V} {log : Int → Option V} {lo lo' : Int}

/-- Writing a position of the window and recording it keeps the window. -/
lemma WindowHolds.write (h : WindowHolds N slot slots log lo) (hslot : IsSlotMap N slot) {s : Int}
    (hs : lo < s) (hs' : s ≤ lo + N) (v : V) :
    WindowHolds N slot (Function.update slots (slot s) v) (Function.update log s (some v)) lo := by
  intro t w ht ht' hw
  by_cases hts : t = s
  · subst hts
    simpa using hw
  · have hne : slot t ≠ slot s := fun he => hts (hslot.eq_of_window ht ht' hs hs' he)
    rw [Function.update_of_ne hts] at hw
    rw [Function.update_of_ne hne]
    exact h t w ht ht' hw

omit [DecidableEq I] in
/-- The window may move up when nothing above its end has been recorded. -/
lemma WindowHolds.advance (h : WindowHolds N slot slots log lo) (hle : lo ≤ lo')
    (hlog : ∀ s, lo + N < s → log s = none) : WindowHolds N slot slots log lo' := by
  intro t w ht _ hw
  by_cases hend : t ≤ lo + N
  · exact h t w (by omega) hend hw
  · simp [hlog t (by omega)] at hw

end WindowHolds

end Disruptor.Core
