import Mathlib.Data.List.Basic
import Mathlib.Algebra.Order.Group.Unbundled.Int
import Mathlib.Tactic.Common

/-!
# Attempts in order

A worker goes through consecutive positions. An attempt at a position either completes it, and the
next attempt is one position on, or fails, and the next attempt is at the same position. Of a log of
such attempts, the completed ones are each position once.
-/

namespace Disruptor.Core

variable {A : Type*} (position : A → Int) (completed : A → Bool)

/-- Where the attempt after a log is made. -/
def nextPosition : Int → List A → Int
  | start, [] => start
  | start, a :: log => nextPosition (if completed a then start + 1 else start) log

/-- Every attempt is made where the ones before it have left off. -/
def InOrder : Int → List A → Prop
  | _, [] => True
  | start, a :: log =>
    position a = start ∧ InOrder (if completed a then start + 1 else start) log

variable {position completed} {start : Int} {log : List A} {a : A}

lemma nextPosition_concat :
    nextPosition completed start (log ++ [a]) =
      if completed a then nextPosition completed start log + 1
      else nextPosition completed start log := by
  induction log generalizing start with
  | nil => rfl
  | cons b log ih => exact ih

lemma InOrder.concat (h : InOrder position completed start log)
    (ha : position a = nextPosition completed start log) :
    InOrder position completed start (log ++ [a]) := by
  induction log generalizing start with
  | nil => exact ⟨ha, trivial⟩
  | cons b log ih => exact ⟨h.1, ih h.2 ha⟩

/-- As many positions are left behind as attempts were completed. -/
lemma nextPosition_eq :
    nextPosition completed start log = start + (log.filter completed).length := by
  induction log generalizing start with
  | nil => simp [nextPosition]
  | cons b log ih =>
    rw [nextPosition, ih]
    cases hb : completed b with
    | true =>
      simp [hb]
      omega
    | false => simp [hb]

/-- The completed attempts are at consecutive positions, each once. -/
theorem InOrder.completed_eq (h : InOrder position completed start log) :
    (log.filter completed).map position =
      (List.range (log.filter completed).length).map fun k : Nat => start + (k : Int) := by
  induction log generalizing start with
  | nil => rfl
  | cons b log ih =>
    obtain ⟨hpos, hrest⟩ := h
    cases hb : completed b with
    | true =>
      rw [hb, if_pos rfl] at hrest
      have hshift : ∀ k : Nat, start + 1 + (k : Int) = start + ((k + 1 : Nat) : Int) := by
        intro k
        push_cast
        omega
      rw [List.filter_cons_of_pos hb, List.map_cons, List.length_cons, List.range_succ_eq_map,
        List.map_cons, List.map_map, ih hrest, hpos]
      simp [hshift]
    | false =>
      rw [hb] at hrest
      rw [List.filter_cons_of_neg (by simp [hb])]
      exact ih hrest

lemma InOrder.start_le (h : InOrder position completed start log) (ha : a ∈ log) :
    start ≤ position a := by
  induction log generalizing start with
  | nil => cases ha
  | cons b log ih =>
    rcases List.mem_cons.mp ha with rfl | ha
    · exact h.1.ge
    · have hle := ih h.2 ha
      split_ifs at hle <;> omega

/-- A position is only tried again when the earlier attempt failed. -/
theorem InOrder.pairwise_failed (h : InOrder position completed start log) :
    log.Pairwise fun a a' => position a = position a' → completed a = false := by
  induction log generalizing start with
  | nil => exact List.Pairwise.nil
  | cons b log ih =>
    obtain ⟨hpos, hrest⟩ := h
    refine List.Pairwise.cons ?_ (ih hrest)
    intro a ha heq
    by_contra hb
    rw [Bool.not_eq_false] at hb
    have hle := hrest.start_le ha
    rw [if_pos hb] at hle
    omega

end Disruptor.Core
