import Mathlib

/-! # Summed-area tables

The sums of a two-dimensional array over the corners of it, and the sum over a
rectangle as a combination of four corners. -/
namespace AiDeck.Lib.Summed

open Finset

section
variable {G : Type*} [AddCommMonoid G] (f : ℕ → ℕ → G)

/-- The sum over the first `r` rows and `c` columns. -/
def corner (r c : ℕ) : G := ∑ i ∈ range r, ∑ j ∈ range c, f i j

/-- The sum of the first `r` rows of column `j`. -/
def column (r j : ℕ) : G := ∑ i ∈ range r, f i j

@[simp] theorem column_zero (j : ℕ) : column f 0 j = 0 := rfl

theorem column_succ (r j : ℕ) : column f (r + 1) j = column f r j + f r j :=
  sum_range_succ (fun i => f i j) r

/-- Rows after the first `r` are the rows of an array of their own. -/
theorem column_add (r s j : ℕ) :
    column f (r + s) j = column f r j + column (fun i => f (r + i)) s j :=
  sum_range_add (fun i => f i j) r s

theorem corner_eq_columns (r c : ℕ) : corner f r c = ∑ j ∈ range c, column f r j := sum_comm

end

section
variable {G : Type*} [AddCommGroup G] (f : ℕ → ℕ → G)

/-- **The sum over a rectangle from four corners.** -/
theorem sum_rectangle {r r' c c' : ℕ} (hr : r ≤ r') (hc : c ≤ c') :
    ∑ i ∈ Ico r r', ∑ j ∈ Ico c c', f i j =
      corner f r' c' + corner f r c - corner f r c' - corner f r' c := by
  have hrow (i : ℕ) : ∑ j ∈ Ico c c', f i j = ∑ j ∈ range c', f i j - ∑ j ∈ range c, f i j :=
    sum_Ico_eq_sub _ hc
  rw [sum_Ico_eq_sub _ hr]
  simp only [hrow, sum_sub_distrib, corner]
  abel

end

end AiDeck.Lib.Summed
