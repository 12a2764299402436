import Mathlib

/-! # What comes first in a queue -/
namespace AiDeck.Lib

variable {α : Type} {x y p : α} {l m : List α}

/-- Every `y` in the queue comes after an `x`. -/
def Precedes (l : List α) (x y : α) : Prop := ∀ a b, l = a ++ y :: b → x ∈ a

namespace Precedes

theorem not_head (h : Precedes (y :: l) x y) : False := List.not_mem_nil (h [] l rfl)

theorem tail (h : Precedes (p :: l) x y) (hp : x ≠ p) : Precedes l x y := by
  rintro a b rfl
  exact List.mem_of_ne_of_mem hp (h (p :: a) b rfl)

/-- What is queued later does not overtake. -/
theorem append (h : Precedes l x y) (hm : y ∉ m) : Precedes (l ++ m) x y := by
  intro a b heq
  rcases List.append_eq_append_iff.mp heq with ⟨c, rfl, rfl⟩ | ⟨c, rfl, hc⟩
  · exact absurd (List.mem_append_right c List.mem_cons_self) hm
  · cases c with
    | nil =>
      have hmem : y ∈ m := by
        rw [← List.nil_append m, ← hc]
        exact List.mem_cons_self
      exact absurd hmem hm
    | cons z c =>
      obtain ⟨rfl, -⟩ := List.cons.inj hc
      exact h a c rfl

/-- What is queued comes before what is queued later. -/
theorem of_mem (hx : x ∈ l) (hy : y ∉ l) : Precedes (l ++ m) x y := by
  intro a b heq
  rcases List.append_eq_append_iff.mp heq with ⟨c, rfl, -⟩ | ⟨c, rfl, hc⟩
  · exact List.mem_append_left c hx
  · cases c with
    | nil => rwa [List.append_nil] at hx
    | cons z c =>
      obtain ⟨rfl, -⟩ := List.cons.inj hc
      exact absurd (List.mem_append_right a List.mem_cons_self) hy

end Precedes

end AiDeck.Lib
