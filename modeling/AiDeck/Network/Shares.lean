import Mathlib
import AiDeck.Lib.Share
import AiDeck.Lib.Cores

/-! # The shares of the cores

The kernels of the network share out their lines by shifts and masks, which is a division as
long as the number of cores is a power of two. -/
namespace AiDeck.Network

open AiDeck.Lib.Cores (Shares)
open AiDeck.Lib.Share (flatMap_block)

/-- `(n >> Log2Core) + ((n & (NUM_CORES - 1)) != 0)`. -/
def coreChunk (log2Core numCores n : Nat) : Nat :=
  (n >>> log2Core) + (if n &&& (numCores - 1) ≠ 0 then 1 else 0)

/-- From `min(chunk * core_id, n)` to `min(start + chunk, n)`. -/
def lines (chunk n core : Nat) : List Nat :=
  let start := min (chunk * core) n
  let stop := min (start + chunk) n
  List.range' start (stop - start)

variable {k n : Nat}

/-- The chunks of all cores are enough, also where `log2` is taken of fewer cores. -/
theorem le_mul_coreChunk {j : Nat} (hj : j ≤ k) : n ≤ 2 ^ k * coreChunk j (2 ^ k) n := by
  have hdiv := Nat.div_add_mod n (2 ^ k)
  have hmod := Nat.mod_lt n (Nat.two_pow_pos k)
  have hle : n / 2 ^ k ≤ n / 2 ^ j :=
    Nat.div_le_div_left (Nat.pow_le_pow_right Nat.two_pos hj) (Nat.two_pow_pos j)
  calc n ≤ 2 ^ k * (n / 2 ^ k + if n % 2 ^ k ≠ 0 then 1 else 0) := by
        rw [Nat.mul_add]
        split <;> omega
    _ ≤ 2 ^ k * coreChunk j (2 ^ k) n := by
        rw [coreChunk, Nat.shiftRight_eq_div_pow, Nat.and_two_pow_sub_one_eq_mod]
        exact Nat.mul_le_mul_left _ (Nat.add_le_add_right hle _)

theorem log2_le {cores : Nat} (h : cores ≤ 2 ^ k) : cores.log2 ≤ k := by
  rcases Nat.eq_zero_or_pos cores with rfl | hpos
  · exact Nat.zero_le k
  · rw [← Nat.pow_le_pow_iff_right Nat.one_lt_two]
    exact (Nat.log2_self_le hpos.ne').trans h

theorem lines_eq_block (chunk n core : Nat) : lines chunk n core = Lib.Share.block n chunk core := by
  unfold lines Lib.Share.block
  rw [Nat.mul_comm core, Nat.add_one_mul, Nat.mul_comm core]
  rcases Nat.le_total (chunk * core) n with hle | hge
  · rw [Nat.min_eq_left hle, Nat.min_comm]
  · simp only [Nat.min_eq_right hge]
    rw [Nat.min_eq_right (by omega), Nat.min_eq_left (by omega), Nat.sub_self,
      Nat.sub_eq_zero_of_le hge, List.range'_zero, List.range'_zero]

/-- **Chunks that are enough share out the lines**, each to one core. -/
theorem shares_block {chunk cores : Nat} (h : n ≤ cores * chunk) :
    Shares n cores fun core => Lib.Share.block n chunk core := by
  refine Shares.of_flatMap (f := Lib.Share.block n chunk) ?_
  rw [flatMap_block, Nat.min_eq_left h]

theorem shares_lines {chunk cores : Nat} (h : n ≤ cores * chunk) :
    Shares n cores fun core => lines chunk n core := by
  have hblock := shares_block h
  simp only [lines_eq_block]
  exact hblock

end AiDeck.Network
