import Disruptor.Core.Ledger
import Mathlib.Algebra.Order.BigOperators.Group.List
import Mathlib.Algebra.Order.Group.Nat

/-!
# A log drains

Agents publish positions, and readers follow what is published and one another. When the lowest
position that is not published can be published as soon as every reader has passed what is below
it, and a reader that is behind can move on as soon as those of lower rank are ahead of it, then
everything can be published and every reader can get to the end.
-/

namespace Disruptor.Core

variable {S I : Type*}

/-- How a log goes on, up to a last position: `R` relates a state to those that it can get to. -/
structure Drains (Inv : S → Prop) (R : S → S → Prop) (published : S → Int → Prop)
    (value : S → I → Int) (last : Int) (readers : List I) (rank : I → Nat) : Prop where
  refl : ∀ {s}, R s s
  trans : ∀ {s t u}, R s t → R t u → R s u
  keeps : ∀ {s t}, Inv s → R s t → Inv t
  published_mono : ∀ {s t} u, Inv s → R s t → published s u → published t u
  value_mono : ∀ {s t} i, Inv s → R s t → value s i ≤ value t i
  /-- The lowest position that is not published. -/
  publishes : ∀ {s} u, Inv s → 0 ≤ u → u ≤ last → Upto (published s) (u - 1) →
    ¬ published s u → (∀ i ∈ readers, u - 1 ≤ value s i) → ∃ t, R s t ∧ published t u
  /-- A reader that is behind. -/
  advances : ∀ {s} u i, Inv s → u ≤ last → Upto (published s) u → i ∈ readers →
    value s i < u → (∀ j ∈ readers, rank j < rank i → u ≤ value s j) →
      ∃ t, R s t ∧ value s i < value t i

namespace Drains

variable {Inv : S → Prop} {R : S → S → Prop} {published : S → Int → Prop} {value : S → I → Int}
  {last u : Int} {readers : List I} {rank : I → Nat} {s : S}

/-- A reader gets to a position that is published, when those of lower rank have. -/
lemma reader (h : Drains Inv R published value last readers rank) (hs : Inv s) (hu : u ≤ last)
    (hupto : Upto (published s) u) {i : I} (hi : i ∈ readers)
    (hbelow : ∀ j ∈ readers, rank j < rank i → u ≤ value s j) :
    ∃ t, R s t ∧ u ≤ value t i := by
  induction hn : (u - value s i).toNat using Nat.strongRecOn generalizing s with
  | ind n ih =>
    by_cases hlt : value s i < u
    · obtain ⟨t, hst, hmore⟩ := h.advances u i hs hu hupto hi hlt hbelow
      obtain ⟨t', htt, hle⟩ := ih (u - value t i).toNat (by omega) (h.keeps hs hst)
        (hupto.mono le_rfl fun v => h.published_mono v hs hst)
        (fun j hj hrank => (hbelow j hj hrank).trans (h.value_mono j hs hst)) rfl
      exact ⟨t', h.trans hst htt, hle⟩
    · exact ⟨s, h.refl, not_lt.mp hlt⟩

/-- The readers get there one after another, those of lower rank first. -/
lemma belowRank (h : Drains Inv R published value last readers rank) (hs : Inv s) (hu : u ≤ last)
    (hupto : Upto (published s) u) (n : Nat) :
    ∃ t, R s t ∧ ∀ i ∈ readers, rank i < n → u ≤ value t i := by
  induction n with
  | zero => exact ⟨s, h.refl, by simp⟩
  | succ n ih =>
    obtain ⟨t, hst, hlower⟩ := ih
    suffices hlist : ∀ l, l ⊆ readers →
        ∃ t', R t t' ∧ ∀ i ∈ l, rank i < n + 1 → u ≤ value t' i by
      obtain ⟨t', htt, hall⟩ := hlist readers fun _ hi => hi
      exact ⟨t', h.trans hst htt, hall⟩
    intro l hl
    induction l with
    | nil => exact ⟨t, h.refl, by simp⟩
    | cons i l ih =>
      obtain ⟨hi, hl⟩ := List.cons_subset.mp hl
      obtain ⟨t₁, ht₁, hrest⟩ := ih hl
      have hs₁ : R s t₁ := h.trans hst ht₁
      by_cases hrank : rank i < n + 1
      · obtain ⟨t₂, ht₂, hle⟩ := h.reader (h.keeps hs hs₁) hu
          (hupto.mono le_rfl fun v => h.published_mono v hs hs₁) hi (by
            intro j hj hlt
            exact (hlower j hj (by omega)).trans (h.value_mono j (h.keeps hs hst) ht₁))
        refine ⟨t₂, h.trans ht₁ ht₂, List.forall_mem_cons.mpr ⟨fun _ => hle, ?_⟩⟩
        intro j hj hlt
        exact (hrest j hj hlt).trans (h.value_mono j (h.keeps hs hs₁) ht₂)
      · exact ⟨t₁, ht₁, List.forall_mem_cons.mpr ⟨fun hlt => absurd hlt hrank, hrest⟩⟩

lemma allReaders (h : Drains Inv R published value last readers rank) (hs : Inv s) (hu : u ≤ last)
    (hupto : Upto (published s) u) : ∃ t, R s t ∧ ∀ i ∈ readers, u ≤ value t i := by
  obtain ⟨t, hst, hall⟩ := h.belowRank hs hu hupto ((readers.map rank).sum + 1)
  refine ⟨t, hst, fun i hi => hall i hi ?_⟩
  have hle : rank i ≤ (readers.map rank).sum :=
    List.single_le_sum (by simp) _ (List.mem_map_of_mem hi)
  omega

/-- Everything is published in the end, and every reader is there. -/
theorem drained (h : Drains Inv R published value last readers rank) (hs : Inv s)
    (hlast : -1 ≤ last) (hstart : ∀ i ∈ readers, -1 ≤ value s i) :
    ∃ t, R s t ∧ Upto (published t) last ∧ ∀ i ∈ readers, last ≤ value t i := by
  suffices hall : ∀ n : Nat, (n : Int) - 1 ≤ last →
      ∃ t, R s t ∧ Upto (published t) ((n : Int) - 1) ∧ ∀ i ∈ readers, (n : Int) - 1 ≤ value t i by
    obtain ⟨t, hst, hupto, hvalues⟩ := hall (last + 1).toNat (by omega)
    have hn : ((last + 1).toNat : Int) - 1 = last := by omega
    rw [hn] at hupto hvalues
    exact ⟨t, hst, hupto, hvalues⟩
  intro n
  induction n with
  | zero =>
    intro _
    refine ⟨s, h.refl, ?_, by simpa using hstart⟩
    intro v hv hv'
    omega
  | succ n ih =>
    intro hn
    obtain ⟨t, hst, hupto, hvalues⟩ := ih (by omega)
    have ht := h.keeps hs hst
    -- the next position is published, and then the readers pass it
    obtain ⟨t₁, ht₁, hpublished⟩ : ∃ t₁, R t t₁ ∧ published t₁ n := by
      by_cases hset : published t n
      · exact ⟨t, h.refl, hset⟩
      · exact h.publishes n ht (by omega) (by omega) hupto hset hvalues
    have hupto₁ : Upto (published t₁) n := by
      intro v hv hv'
      by_cases heq : v = n
      · exact heq ▸ hpublished
      · exact h.published_mono v ht ht₁ (hupto v hv (by omega))
    obtain ⟨t₂, ht₂, hvalues₂⟩ := h.allReaders (h.keeps ht ht₁) (by omega) hupto₁
    have hcast : ((n + 1 : Nat) : Int) - 1 = n := by omega
    rw [hcast]
    refine ⟨t₂, h.trans hst (h.trans ht₁ ht₂), ?_, hvalues₂⟩
    exact hupto₁.mono le_rfl fun v => h.published_mono v (h.keeps ht ht₁) ht₂

end Drains

end Disruptor.Core
