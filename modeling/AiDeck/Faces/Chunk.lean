import Mathlib
import AiDeck.Lib.Cores
import AiDeck.Lib.Share
import AiDeck.Images.KernelShares

/-! # The chunk of a core

The kernels of FaceDetBasicKernels.c give each of the cores a chunk of the columns,
lines or classifiers. The number of cores is a power of two. -/
namespace AiDeck.Faces

open AiDeck.Lib.Share AiDeck.Lib.Cores
open AiDeck.Images (upto)

/-- `gap_fl1`: the position of the highest bit that is set. -/
def gapFl1 (x : UInt32) : UInt32 := .ofNat x.toNat.log2

/-- `ChunkSize`. -/
def chunkSize (nCore x : UInt32) : UInt32 :=
  let log2Core := gapFl1 nCore
  (x >>> log2Core) + (if x &&& (nCore - 1) ≠ 0 then 1 else 0)

/-- The loop of a core, from `First` to `Last`. -/
def chunk (nCore x coreId : UInt32) : List UInt32 :=
  let chunkBlock := chunkSize nCore x
  let first := coreId * chunkBlock
  let last := if first + chunkBlock > x then x else first + chunkBlock
  upto first last

section
variable {nCore x coreId : UInt32} {k : Nat} (hcore : nCore.toNat = 2 ^ k)
include hcore

theorem log2_lt : k < 32 := by
  have hlt := nCore.toNat_lt
  rw [hcore] at hlt
  exact (Nat.pow_lt_pow_iff_right (by omega)).mp hlt

theorem nCore_le : nCore.toNat ≤ 2 ^ 31 :=
  hcore ▸ Nat.pow_le_pow_right (by decide) (Nat.le_of_lt_succ (log2_lt hcore))

/-- **The chunk is the share of a core, rounded up.** -/
theorem chunkSize_toNat :
    (chunkSize nCore x).toNat = (x.toNat + nCore.toNat - 1) / nCore.toNat := by
  have hk := log2_lt hcore
  have hpos := Nat.two_pow_pos k
  have hone : (1 : UInt32) ≤ nCore := by
    rw [UInt32.le_iff_toNat_le, hcore]
    exact hpos
  have hshift : (x >>> gapFl1 nCore).toNat = x.toNat / 2 ^ k := by
    rw [UInt32.toNat_shiftRight, gapFl1, hcore, Nat.log2_two_pow, UInt32.toNat_ofNat',
      Nat.mod_eq_of_lt (by omega : k < 2 ^ 32), Nat.mod_eq_of_lt hk, Nat.shiftRight_eq_div_pow]
  have hmask : (x &&& (nCore - 1)).toNat = x.toNat % 2 ^ k := by
    rw [UInt32.toNat_and, UInt32.toNat_sub_of_le _ _ hone, hcore]
    exact Nat.and_two_pow_sub_one_eq_mod _ _
  have hrest : (x &&& (nCore - 1) ≠ 0) ↔ x.toNat % 2 ^ k ≠ 0 := by
    rw [← hmask, Ne, Ne, ← UInt32.toNat_inj]
    rfl
  have hdiv := Nat.div_add_mod x.toNat (2 ^ k)
  have hmod := Nat.mod_lt x.toNat hpos
  have hx := x.toNat_lt
  rw [chunkSize, UInt32.toNat_add, hshift, hcore]
  by_cases hzero : x.toNat % 2 ^ k = 0
  · rw [if_neg (not_not.mpr hzero ∘ hrest.mp), UInt32.toNat_zero, Nat.add_zero,
      Nat.mod_eq_of_lt (Nat.lt_of_le_of_lt (Nat.div_le_self _ _) hx)]
    refine (Nat.div_eq_of_lt_le ?_ ?_).symm
    · rw [Nat.mul_comm]
      omega
    · rw [Nat.succ_mul, Nat.mul_comm]
      omega
  · have hk' : 2 ≤ 2 ^ k := by
      rcases k with _ | k
      · rw [Nat.pow_zero, Nat.mod_one] at hzero
        exact absurd rfl hzero
      · have := Nat.one_le_two_pow (n := k)
        rw [Nat.pow_succ]
        omega
    have hhalf : x.toNat / 2 ^ k ≤ x.toNat / 2 := Nat.div_le_div_left hk' (by decide)
    rw [if_pos (hrest.mpr hzero), UInt32.toNat_one, Nat.mod_eq_of_lt (by omega)]
    refine (Nat.div_eq_of_lt_le ?_ ?_).symm
    · rw [Nat.succ_mul, Nat.mul_comm]
      omega
    · rw [Nat.succ_mul, Nat.succ_mul, Nat.mul_comm]
      omega

theorem chunk_toNat (hfit : x.toNat + nCore.toNat ≤ 2 ^ 32) (hid : coreId < nCore) :
    (chunk nCore x coreId).map UInt32.toNat =
      block x.toNat ((x.toNat + nCore.toNat - 1) / nCore.toNat) coreId.toNat := by
  have hid := UInt32.lt_iff_toNat_lt.mp hid
  have hsize := chunkSize_toNat hcore (x := x)
  have hsum := Nat.mul_div_le (x.toNat + nCore.toNat - 1) nCore.toNat
  have hnext : (coreId.toNat + 1) * (chunkSize nCore x).toNat < 2 ^ 32 :=
    calc _ ≤ nCore.toNat * (chunkSize nCore x).toNat := Nat.mul_le_mul_right _ hid
      _ < 2 ^ 32 := by rw [hsize]; omega
  have hfirst : (coreId * chunkSize nCore x).toNat =
      coreId.toNat * (chunkSize nCore x).toNat := by
    rw [UInt32.toNat_mul, Nat.mod_eq_of_lt]
    exact Nat.lt_of_le_of_lt (Nat.mul_le_mul_right _ (Nat.le_succ _)) hnext
  have hlast : (coreId * chunkSize nCore x + chunkSize nCore x).toNat =
      (coreId.toNat + 1) * (chunkSize nCore x).toNat := by
    rw [UInt32.toNat_add, hfirst, ← Nat.succ_mul, Nat.mod_eq_of_lt hnext]
  rw [chunk, Images.upto_toNat, Images.clip_toNat, hfirst, hlast, hsize]
  rfl

/-- **The chunks share out the whole loop.** -/
theorem chunk_shares (hfit : x.toNat + nCore.toNat ≤ 2 ^ 32) :
    Shares x.toNat nCore.toNat fun c => (chunk nCore x (.ofNat c)).map UInt32.toNat := by
  have hpos : 0 < nCore.toNat := hcore ▸ Nat.two_pow_pos k
  have hlt := nCore.toNat_lt
  have hshares := Shares.of_flatMap (flatMap_share x.toNat hpos)
  refine cast (congrArg (Shares x.toNat nCore.toNat) (funext fun c => ?_)) hshares
  have hid : (UInt32.ofNat c).toNat = c := by
    rw [UInt32.toNat_ofNat', Nat.mod_eq_of_lt (by omega)]
  have hc : UInt32.ofNat c < nCore := by
    rw [UInt32.lt_iff_toNat_lt, hid]
    exact c.isLt
  rw [chunk_toNat hcore hfit hc, hid]

end

end AiDeck.Faces
