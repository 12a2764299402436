import Mathlib
import AiDeck.Lib.Cores

/-! # Blocks of cells, combined in place

Programs that go through a block cell by cell and combine each with the cell at the same
place of another block, of which copying is the simplest. The blocks may overlap as long as
what is read lies ahead of what has been written. -/
namespace AiDeck.Lib.Copies

open Cores

variable {β : Type*} {g : β → β → β} {dst src n i x : ℕ} {m : ℕ → β}

/-- The cells of a block. -/
def cells (p n : ℕ) : Set ℕ := {x | p ≤ x ∧ x < p + n}

theorem mem_cells {p : ℕ} : x ∈ cells p n ↔ p ≤ x ∧ x < p + n := Iff.rfl

theorem add_mem_cells {p : ℕ} (hi : i < n) : p + i ∈ cells p n :=
  ⟨Nat.le_add_right p i, Nat.add_lt_add_left hi p⟩

theorem cells_apart {p q k : ℕ} (h : p + n ≤ q ∨ q + k ≤ p) : Disjoint (cells p n) (cells q k) := by
  refine Set.disjoint_left.mpr fun z hz hz' => ?_
  rw [mem_cells] at hz hz'
  omega

/-- Blocks of one size, one after the other, have no cell in common. -/
theorem cells_disjoint {p w u v : ℕ} (huv : u ≠ v) :
    Disjoint (cells (p + u * w) w) (cells (p + v * w) w) := by
  refine Set.disjoint_left.mpr fun z hz hz' => ?_
  rw [mem_cells] at hz hz'
  rcases Nat.lt_or_gt_of_ne huv with hlt | hgt
  · have : (u + 1) * w ≤ v * w := Nat.mul_le_mul_right _ hlt
    rw [Nat.add_one_mul] at this
    omega
  · have : (v + 1) * w ≤ u * w := Nat.mul_le_mul_right _ hgt
    rw [Nat.add_one_mul] at this
    omega

/-- `dst[i] = g(dst[i], src[i])` for each `i` in turn. -/
def combine (g : β → β → β) (dst src n : ℕ) : List (Assign ℕ β) :=
  (List.range n).map fun i => ⟨dst + i, fun m => g (m (dst + i)) (m (src + i))⟩

/-- A block that may be read while another one is written. -/
def Ahead (dst src n : ℕ) : Prop := dst ≤ src ∨ src + n ≤ dst

theorem ahead_of_disjoint (h : Disjoint (cells src n) (cells dst n)) : Ahead dst src n := by
  by_contra hnot
  unfold Ahead at hnot
  refine Set.disjoint_left.mp h (show dst ∈ cells src n from ⟨?_, ?_⟩) ⟨?_, ?_⟩ <;> omega

theorem combine_succ : combine g dst src (n + 1) =
    combine g dst src n ++ [⟨dst + n, fun m => g (m (dst + n)) (m (src + n))⟩] := by
  rw [combine, List.range_succ, List.map_append]
  rfl

theorem combine_within :
    ∀ s ∈ combine g dst src n, Within (cells dst n) (cells dst n ∪ cells src n) s := by
  intro s hs
  obtain ⟨i, hi, rfl⟩ := List.mem_map.mp hs
  have hlt := List.mem_range.mp hi
  have hdst : dst + i ∈ cells dst n := add_mem_cells hlt
  have hsrc : src + i ∈ cells src n := add_mem_cells hlt
  refine ⟨hdst, fun m m' heq => ?_⟩
  simp only [heq (Or.inl hdst), heq (Or.inr hsrc)]

theorem run_combine_of_notMem (hx : x ∉ cells dst n) : run (combine g dst src n) m x = m x :=
  run_of_notMem combine_within hx

/-- **Each cell of the block is combined with what the other block held before.** -/
theorem run_combine (h : Ahead dst src n) (hi : i < n) :
    run (combine g dst src n) m (dst + i) = g (m (dst + i)) (m (src + i)) := by
  induction n with
  | zero => omega
  | succ n ih =>
    rw [combine_succ, run_concat, Assign.run]
    rcases Nat.lt_or_ge i n with hlt | hge
    · rw [Function.update_of_ne (by simp; omega)]
      refine ih ?_ hlt
      rcases h with h | h
      · exact Or.inl h
      · exact Or.inr (by omega)
    · obtain rfl : i = n := by omega
      rw [Function.update_self]
      have hdst : dst + i ∉ cells dst i := by simp [cells]
      have hsrc : src + i ∉ cells dst i := by
        unfold cells
        rcases h with h | h <;> simp <;> omega
      change g (run _ m (dst + i)) (run _ m (src + i)) = _
      rw [run_combine_of_notMem hdst, run_combine_of_notMem hsrc]

/-! ## Several blocks gathered in one -/

/-- The block of the first source is copied, then those of the others are combined with it. -/
def gather (g : β → β → β) (dst n : ℕ) (src : ℕ) (rest : List ℕ) : List (Assign ℕ β) :=
  combine (fun _ b => b) dst src n ++ rest.flatMap fun src => combine g dst src n

variable {rest : List ℕ}

theorem gather_within {sees : Set ℕ} (hdst : cells dst n ⊆ sees) (hsrc : cells src n ⊆ sees)
    (hrest : ∀ s ∈ rest, cells s n ⊆ sees) :
    ∀ s ∈ gather g dst n src rest, Within (cells dst n) sees s := by
  intro s hs
  have hwithin : ∀ {g : β → β → β} {src : ℕ}, cells src n ⊆ sees → s ∈ combine g dst src n →
      Within (cells dst n) sees s := fun hsrc hs =>
    ⟨(combine_within s hs).cell, fun m m' heq =>
      (combine_within s hs).value (heq.mono (Set.union_subset hdst hsrc))⟩
  rcases List.mem_append.mp hs with hs | hs
  · exact hwithin hsrc hs
  · obtain ⟨s', hs', hs⟩ := List.mem_flatMap.mp hs
    exact hwithin (hrest s' hs') hs

theorem run_gather_of_notMem (hx : x ∉ cells dst n) :
    run (gather g dst n src rest) m x = m x :=
  run_of_notMem (gather_within (Set.subset_univ _) (Set.subset_univ _) fun _ _ =>
    Set.subset_univ _) hx

/-- **What is gathered**: the sources as they were, combined in order. -/
theorem run_gather (hsrc : Ahead dst src n) (hrest : ∀ s ∈ rest, Disjoint (cells s n) (cells dst n))
    (hi : i < n) : run (gather g dst n src rest) m (dst + i) =
      rest.foldl (fun b s => g b (m (s + i))) (m (src + i)) := by
  induction rest using List.reverseRecOn with
  | nil =>
    rw [gather, List.flatMap_nil, List.append_nil]
    exact run_combine hsrc hi
  | append_singleton rest s ih =>
    have hs := hrest s (List.mem_append_right _ (List.mem_singleton_self s))
    have hnot : s + i ∉ cells dst n :=
      Set.disjoint_left.mp hs ⟨Nat.le_add_right s i, by omega⟩
    rw [gather, List.flatMap_append, ← List.append_assoc, List.flatMap_singleton, run_append]
    change run _ (run (gather g dst n src rest) m) _ = _
    rw [run_combine (ahead_of_disjoint hs) hi, ih fun s hs => hrest s (List.mem_append_left _ hs),
      run_gather_of_notMem hnot, List.foldl_append]
    rfl

end AiDeck.Lib.Copies
