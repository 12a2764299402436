import Mathlib
import AiDeck.Lib.Bytes

/-! # Regions of a memory

Stretches of a memory by their start and size, which of them lie within each other or
apart, and regions laid out one after another. -/
namespace AiDeck.Lib

structure Region where
  start : ℕ
  size : ℕ
  deriving DecidableEq

namespace Region

def Within (r s : Region) : Prop := s.start ≤ r.start ∧ r.start + r.size ≤ s.start + s.size

/-- The regions have no cell in common. -/
def Apart (r s : Region) : Prop := r.start + r.size ≤ s.start ∨ s.start + s.size ≤ r.start

instance (r s : Region) : Decidable (r.Within s) := inferInstanceAs (Decidable (_ ∧ _))

instance (r s : Region) : Decidable (r.Apart s) := inferInstanceAs (Decidable (_ ∨ _))

variable {r s t : Region}

theorem Within.trans (h : r.Within s) (h' : s.Within t) : r.Within t :=
  ⟨h'.1.trans h.1, h.2.trans h'.2⟩

theorem Apart.symm (h : r.Apart s) : s.Apart r := Or.symm h

/-- What lies within one of two regions lies apart from the other. -/
theorem Within.apart (h : r.Within s) (hapart : s.Apart t) : r.Apart t := by
  rcases hapart with hbefore | hafter
  · exact Or.inl (h.2.trans hbefore)
  · exact Or.inr (hafter.trans h.1)

/-- Regions of the given sizes, one after another. -/
def layout (start : ℕ) : List ℕ → List Region
  | [] => []
  | size :: sizes => ⟨start, size⟩ :: layout (start + size) sizes

theorem layout_within {start : ℕ} {sizes : List ℕ} :
    ∀ r ∈ layout start sizes, r.Within ⟨start, sizes.sum⟩ := by
  induction sizes generalizing start with
  | nil =>
    intro r hr
    cases hr
  | cons size sizes ih =>
    intro r hr
    rw [List.sum_cons]
    rcases List.mem_cons.mp hr with rfl | hr
    · exact ⟨le_rfl, by simp⟩
    · have ⟨hlow, hhigh⟩ := ih r hr
      constructor
      · simp only at hlow ⊢
        omega
      · simp only at hhigh ⊢
        omega

/-- **Regions laid out one after another are apart.** -/
theorem layout_pairwise (start : ℕ) (sizes : List ℕ) :
    (layout start sizes).Pairwise Apart := by
  induction sizes generalizing start with
  | nil => exact List.Pairwise.nil
  | cons size sizes ih =>
    refine List.pairwise_cons.mpr ⟨fun r hr => Or.inl ?_, ih _⟩
    exact (layout_within r hr).1

/-! ## What is stored in a region -/

open Bytes (segment overwrite)

variable {α : Type} {m : ℕ → α} {l : List α}

/-- What is stored in one of two regions that are apart does not show in the other. -/
theorem Apart.segment_overwrite (h : r.Apart s) (hl : l.length = s.size) :
    segment (overwrite m s.start l) r.start r.size = segment m r.start r.size := by
  refine Bytes.segment_overwrite_disjoint m l ?_
  rw [hl]
  exact h

/-- The cells of a region. -/
def Has (r : Region) (a : ℕ) : Prop := r.start ≤ a ∧ a < r.start + r.size

theorem Within.has (h : r.Within s) {a : ℕ} (ha : r.Has a) : s.Has a :=
  ⟨h.1.trans ha.1, ha.2.trans_le h.2⟩

theorem overwrite_of_not_has (hl : l.length = s.size) {a : ℕ} (ha : ¬ s.Has a) :
    overwrite m s.start l a = m a := by
  unfold Has at ha
  rcases Nat.lt_or_ge a s.start with hlt | hge
  · exact Bytes.overwrite_before m l hlt
  · exact Bytes.overwrite_after m l (by omega)

end Region

end AiDeck.Lib
