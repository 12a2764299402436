import Mathlib
import AiDeck.Lib.Cores

/-! # Cells moved one by one

Programs that move cells from places to places, such as the transfers of a DMA engine. Where
no place is written twice and none is both read and written, each cell gets what was at
its source. -/
namespace AiDeck.Lib.Moves

open Cores

variable {β : Type*} {dst src dst' src' : ℕ → ℕ} {n q x : ℕ} {m : ℕ → β}

/-- `*dst(q) = *src(q)` for each `q` in turn. -/
def moves (dst src : ℕ → ℕ) (n : ℕ) : List (Assign ℕ β) :=
  (List.range n).map fun q => ⟨dst q, fun m => m (src q)⟩

theorem moves_congr (hdst : ∀ q < n, dst q = dst' q) (hsrc : ∀ q < n, src q = src' q) :
    (moves dst src n : List (Assign ℕ β)) = moves dst' src' n := by
  refine List.map_congr_left fun q hq => ?_
  have hq := List.mem_range.mp hq
  rw [hdst q hq, hsrc q hq]

/-- Block by block is cell by cell. -/
theorem moves_mul (dst src : ℕ → ℕ) (a b : ℕ) : (moves dst src (a * b) : List (Assign ℕ β)) =
    (List.range a).flatMap fun i => moves (fun q => dst (i * b + q)) (fun q => src (i * b + q)) b := by
  induction a with
  | zero => simp [moves]
  | succ a ih =>
    rw [List.range_succ, List.flatMap_append, ← ih, List.flatMap_singleton, moves, Nat.add_one_mul,
      List.range_add, List.map_append, List.map_map]
    rfl

theorem run_moves_of_ne (hx : ∀ q < n, dst q ≠ x) : run (moves dst src n) m x = m x := by
  have hcells : ∀ s ∈ (moves dst src n : List (Assign ℕ β)), s.cell ≠ x := by
    intro s hs
    obtain ⟨q, hq, rfl⟩ := List.mem_map.mp hs
    exact hx q (List.mem_range.mp hq)
  exact run_unwritten hcells m

/-- **Each cell gets what was at its source.** -/
theorem run_moves (hinj : ∀ q < n, ∀ r < n, dst q = dst r → q = r)
    (hapart : ∀ q < n, ∀ r < n, dst q ≠ src r) (hq : q < n) :
    run (moves dst src n) m (dst q) = m (src q) := by
  induction n with
  | zero => omega
  | succ n ih =>
    have hconcat : (moves dst src (n + 1) : List (Assign ℕ β)) =
        moves dst src n ++ [⟨dst n, fun m => m (src n)⟩] := by
      rw [moves, List.range_succ, List.map_append]
      rfl
    rw [hconcat, run_concat, Assign.run]
    rcases Nat.lt_or_ge q n with hlt | hge
    · have hne : dst q ≠ dst n := fun heq => by
        have := hinj q (by omega) n (by omega) heq
        omega
      rw [Function.update_of_ne hne]
      exact ih (fun q hq r hr => hinj q (by omega) r (by omega))
        (fun q hq r hr => hapart q (by omega) r (by omega)) hlt
    · obtain rfl : q = n := by omega
      rw [Function.update_self]
      exact run_moves_of_ne fun r hr => hapart r (by omega) q (by omega)

end AiDeck.Lib.Moves
