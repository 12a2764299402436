import Mathlib

/-! # Work shared out in blocks

A loop over `n` positions is cut into blocks of one size, the last ones clipped.
The blocks, one after another, are the loop; and stores to distinct positions
may be done in any order. -/
namespace AiDeck.Lib.Share

variable {α β ι : Type*}

/-! ## Stores -/

/-- The memory after a list of stores, done in order. -/
def store [DecidableEq α] (m : α → β) (stores : List (α × β)) : α → β :=
  stores.foldl (fun m s => Function.update m s.1 s.2) m

/-- Stores to distinct positions commute. -/
theorem store_perm [DecidableEq α] {s t : List (α × β)} (h : s.Perm t)
    (hs : (s.map Prod.fst).Nodup) (m : α → β) : store m s = store m t := by
  refine h.foldl_eq' (fun x hx y hy m => ?_) m
  by_cases hxy : x = y
  · rw [hxy]
  · have hne : x.1 ≠ y.1 := fun he => hxy (List.inj_on_of_nodup_map hs hx hy he)
    exact Function.update_comm hne _ _ m

/-! ## Blocks -/

/-- Block `i` of the first `n` positions cut into blocks of `size`. -/
def block (n size i : ℕ) : List ℕ := List.range' (i * size) (min n ((i + 1) * size) - i * size)

/-- Blocks without a gap: `k` of them reach to `k * size`, or to the end. -/
theorem flatMap_block (n size k : ℕ) :
    (List.range k).flatMap (block n size) = List.range (min n (k * size)) := by
  induction k with
  | zero => simp
  | succ k ih =>
    have hk : k * size ≤ (k + 1) * size := Nat.mul_le_mul_right size (Nat.le_succ k)
    rw [List.range_succ, List.flatMap_append, ih, List.flatMap_singleton, block,
      List.range_eq_range', List.range_eq_range']
    by_cases h : k * size ≤ n
    · rw [Nat.min_eq_right h]
      have happ := List.range'_append_1 (s := 0) (m := k * size) (n := min n ((k + 1) * size) - k * size)
      rw [Nat.zero_add, Nat.add_sub_cancel' (by omega)] at happ
      exact happ
    · rw [Nat.min_eq_left (by omega), Nat.min_eq_left (by omega), Nat.sub_eq_zero_of_le (by omega)]
      simp

/-- `(n + k - 1) / k` positions for each of `k` are enough. -/
theorem le_mul_ceil (n : ℕ) {k : ℕ} (hk : 0 < k) : n ≤ k * ((n + k - 1) / k) := by
  have hdiv := Nat.div_add_mod (n + k - 1) k
  have hmod := Nat.mod_lt (n + k - 1) hk
  omega

/-- **Blocks of the rounded-up share are the whole loop.** -/
theorem flatMap_share (n : ℕ) {k : ℕ} (hk : 0 < k) :
    (List.range k).flatMap (block n ((n + k - 1) / k)) = List.range n := by
  rw [flatMap_block, Nat.min_eq_left (le_mul_ceil n hk)]

/-- A loop of `a` rounds that does `b` positions in each. -/
theorem flatMap_rows (a b : ℕ) :
    (List.range a).flatMap (fun i => (List.range b).map (i * b + ·)) = List.range (a * b) := by
  induction a with
  | zero => simp
  | succ a ih =>
    rw [List.range_succ, List.flatMap_append, ih, List.flatMap_singleton, ← List.range_add,
      Nat.succ_mul]

/-- The first `k` chunks of a list, one after another. -/
theorem flatMap_chunks (l : List α) (c k : ℕ) :
    (List.range k).flatMap (fun i => (l.drop (c * i)).take c) = l.take (c * k) := by
  induction k with
  | zero => rfl
  | succ k ih =>
    rw [List.range_succ, List.flatMap_append, ih, List.flatMap_singleton, Nat.mul_succ,
      List.take_add]

/-! ## Who does a position -/

/-- Where nothing is done twice, whatever is done is done by one. -/
theorem existsUnique_of_nodup {l : List ι} {f : ι → List α} (h : (l.flatMap f).Nodup) {p : α}
    (hp : p ∈ l.flatMap f) : ∃! i, i ∈ l ∧ p ∈ f i := by
  obtain ⟨i, hi, hpi⟩ := List.mem_flatMap.mp hp
  have hdisj := (List.nodup_flatMap.mp h).2
  refine ⟨i, ⟨hi, hpi⟩, ?_⟩
  intro j ⟨hj, hpj⟩
  by_contra hne
  have : Std.Symm (Function.onFun List.Disjoint f) := ⟨fun _ _ hd => hd.symm⟩
  exact hdisj.forall hj hi hne hpj hpi

end AiDeck.Lib.Share
