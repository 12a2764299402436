import Mathlib

/-! # Lines cut into tiles

A line is computed from windows of another one that follow each other by a stride; the
windows at its two ends reach out of it into padding. Both lines are cut into tiles, of
which only the last may have another size, such that each tile of the one is computed from a
tile of the other. The tiles of the input overlap, and only the outermost have padding. -/
namespace AiDeck.Lib.Tiles

/-- A window starts at each multiple of the stride, less the padding. -/
structure Axis where
  kernel : ℕ
  stride : ℕ
  pad : ℕ
  tiles : ℕ
  xTile : ℕ
  xTileLast : ℕ
  overlap : ℕ
  yTile : ℕ
  yTileLast : ℕ

namespace Axis

variable (a : Axis)

def xSize (t : ℕ) : ℕ := if t + 1 = a.tiles then a.xTileLast else a.xTile

def ySize (t : ℕ) : ℕ := if t + 1 = a.tiles then a.yTileLast else a.yTile

/-- What a tile is padded with before its first element and after its last. -/
def padBefore (t : ℕ) : ℕ := if t = 0 then a.pad else 0

def padAfter (t : ℕ) : ℕ := if t + 1 = a.tiles then a.pad else 0

/-- Where a tile of the input starts: the first one with padding holds less of it. -/
def xStart (t : ℕ) : ℤ := t * (a.xTile - a.overlap) - if 0 < t then a.pad else 0

def dimOut : ℕ := (a.tiles - 1) * a.yTile + a.yTileLast

/-- The tiles cover the output and the windows of each tile lie in its tile of the input, up
to padding. -/
@[mk_iff]
structure Cuts (dimIn : ℕ) : Prop where
  tiles_pos : 0 < a.tiles
  last_le : a.yTileLast ≤ a.yTile
  xTileLast_le : a.xTileLast ≤ a.xTile
  stride_pos : 0 < a.stride
  step : 1 < a.tiles → a.yTile * a.stride + a.overlap = a.xTile ∧ a.pad ≤ a.yTile * a.stride
  fits : 1 < a.tiles → a.yTile * a.stride + a.kernel ≤ a.xTile + a.stride
  inside : 1 < a.tiles → a.xStart (a.tiles - 2) + a.xTile ≤ dimIn
  last : a.xStart (a.tiles - 1) + a.xTileLast = dimIn
  last_fits : ∀ y < a.yTileLast, y + a.pad < a.yTileLast →
    y * a.stride + a.kernel ≤ a.xTileLast + a.padBefore (a.tiles - 1)

instance (dimIn : ℕ) : Decidable (a.Cuts dimIn) := decidable_of_iff' _ (a.cuts_iff dimIn)

theorem padBefore_le (t : ℕ) : a.padBefore t ≤ a.pad := by
  unfold padBefore
  split <;> omega

theorem padAfter_le (t : ℕ) : a.padAfter t ≤ a.pad := by
  unfold padAfter
  split <;> omega

variable {a} {dimIn t y i : ℕ}

theorem Cuts.xStart_eq (h : a.Cuts dimIn) (ht : t < a.tiles) :
    a.xStart t = t * (a.yTile * a.stride) - if 0 < t then a.pad else 0 := by
  unfold xStart
  rcases Nat.eq_zero_or_pos t with rfl | hpos
  · simp
  · obtain ⟨hstep, -⟩ := h.step (by omega)
    congr 2
    rw [← hstep]
    push_cast
    ring

theorem Cuts.xStart_nonneg (h : a.Cuts dimIn) (ht : t < a.tiles) : 0 ≤ a.xStart t := by
  rw [h.xStart_eq ht]
  rcases Nat.eq_zero_or_pos t with rfl | hpos
  · simp
  · obtain ⟨-, hpad⟩ := h.step (by omega)
    have hle : a.yTile * a.stride ≤ t * (a.yTile * a.stride) := Nat.le_mul_of_pos_left _ hpos
    rw [if_pos hpos]
    exact sub_nonneg.mpr (by exact_mod_cast hpad.trans hle)

/-- A place of a window in the whole line is its place in the tile, from where the tile starts. -/
theorem Cuts.place (h : a.Cuts dimIn) (ht : t < a.tiles) (y i : ℕ) :
    ((t * a.yTile + y) * a.stride - a.pad + i : ℤ) =
      (y * a.stride - a.padBefore t + i : ℤ) + a.xStart t := by
  rw [h.xStart_eq ht]
  unfold padBefore
  rcases Nat.eq_zero_or_pos t with rfl | hpos
  · simp
  · rw [if_neg hpos.ne', if_pos hpos]
    push_cast
    ring

/-- The tiles of the input lie in the line. -/
theorem Cuts.tile_inside (h : a.Cuts dimIn) (ht : t < a.tiles) : a.xStart t + a.xSize t ≤ dimIn := by
  unfold xSize
  split
  next hlast =>
    rw [← h.last, show a.tiles - 1 = t by omega]
  next hnot =>
    have hinside := h.inside (by omega)
    rw [h.xStart_eq (show a.tiles - 2 < a.tiles by omega)] at hinside
    rw [h.xStart_eq ht]
    have hle : (t * (a.yTile * a.stride) : ℤ) ≤ ((a.tiles - 2 : ℕ) : ℤ) * (a.yTile * a.stride) := by
      refine mul_le_mul_of_nonneg_right (by omega) ?_
      positivity
    have hpad : (a.pad : ℤ) ≤ a.yTile * a.stride := by
      exact_mod_cast (h.step (by omega)).2
    split
    next hpos =>
      rw [if_pos (show 0 < a.tiles - 2 by omega)] at hinside
      omega
    next hzero =>
      obtain rfl : t = 0 := by omega
      split at hinside
      next htwo =>
        have hone : (1 * (a.yTile * a.stride) : ℤ) ≤ ((a.tiles - 2 : ℕ) : ℤ) * (a.yTile * a.stride) := by
          refine mul_le_mul_of_nonneg_right (by omega) ?_
          positivity
        simp only [one_mul, Nat.cast_zero, zero_mul] at *
        omega
      next =>
        simp only [Nat.cast_zero, zero_mul] at *
        omega

theorem Cuts.start_le (h : a.Cuts dimIn) (ht : t < a.tiles) :
    (a.xStart t).toNat + a.xSize t ≤ dimIn := by
  have hnonneg := h.xStart_nonneg ht
  have hinside := h.tile_inside ht
  omega

theorem Cuts.xSize_le (h : a.Cuts dimIn) : a.xSize t ≤ a.xTile := by
  have := h.xTileLast_le
  unfold xSize
  split <;> omega

theorem Cuts.ySize_le (h : a.Cuts dimIn) : a.ySize t ≤ a.yTile := by
  have := h.last_le
  unfold ySize
  split <;> omega

/-- The windows of a tile that is not the last end in it. -/
theorem Cuts.window_fits (h : a.Cuts dimIn) (ht : t + 1 < a.tiles) (hy : y < a.ySize t)
    (hi : i < a.kernel) : y * a.stride + i < a.xTile := by
  have hfits := h.fits (by omega)
  rw [ySize, if_neg (by omega)] at hy
  have hmul : (y + 1) * a.stride ≤ a.yTile * a.stride := Nat.mul_le_mul_right _ hy
  rw [Nat.add_one_mul] at hmul
  omega

/-- **A place of a window is in the tile exactly when it is in the line.** -/
theorem Cuts.place_iff (h : a.Cuts dimIn) (ht : t < a.tiles) (hy : y < a.ySize t)
    (hi : i < a.kernel) :
    (0 ≤ (y * a.stride - a.padBefore t + i : ℤ) ∧
      (y * a.stride - a.padBefore t + i : ℤ) < a.xSize t) ↔
    (0 ≤ ((t * a.yTile + y) * a.stride - a.pad + i : ℤ) ∧
      ((t * a.yTile + y) * a.stride - a.pad + i : ℤ) < dimIn) := by
  have hplace := h.place ht y i
  have hnonneg := h.xStart_nonneg ht
  have hinside := h.tile_inside ht
  have hlow : 0 ≤ (y * a.stride - a.padBefore t + i : ℤ) ∨ a.xStart t = 0 := by
    unfold padBefore
    split
    next hzero =>
      subst hzero
      right
      unfold xStart
      simp
    next =>
      left
      rw [Nat.cast_zero, sub_zero]
      positivity
  have hhigh : (y * a.stride - a.padBefore t + i : ℤ) < a.xSize t ∨
      a.xStart t + a.xSize t = dimIn := by
    rcases Nat.lt_or_ge (t + 1) a.tiles with hlt | hge
    · left
      have := h.window_fits hlt hy hi
      rw [xSize, if_neg (by omega)]
      push_cast [← @Nat.cast_lt ℤ] at this
      omega
    · right
      rw [xSize, if_pos (by omega), ← h.last, show a.tiles - 1 = t by omega]
  rw [hplace]
  omega

/-- A window that is away from the padding lies in its tile. -/
theorem Cuts.window_inside (h : a.Cuts dimIn) (ht : t < a.tiles) (hy : a.padBefore t ≤ y)
    (hy' : y + a.padAfter t < a.ySize t) (hi : i < a.kernel) :
    0 ≤ (y * a.stride - a.padBefore t + i : ℤ) ∧
      (y * a.stride - a.padBefore t + i : ℤ) < a.xSize t := by
  have hmul : y * 1 ≤ y * a.stride := Nat.mul_le_mul_left y h.stride_pos
  constructor
  · push_cast [← @Nat.cast_le ℤ] at hmul hy
    omega
  · rcases Nat.lt_or_ge (t + 1) a.tiles with hlt | hge
    · have := h.window_fits hlt (show y < a.ySize t by omega) hi
      rw [xSize, if_neg (by omega)]
      push_cast [← @Nat.cast_lt ℤ] at this
      omega
    · have hlast : t + 1 = a.tiles := by omega
      rw [padAfter, if_pos hlast, ySize, if_pos hlast] at hy'
      have := h.last_fits y (by omega) hy'
      rw [show a.tiles - 1 = t by omega] at this
      rw [xSize, if_pos hlast]
      push_cast [← @Nat.cast_le ℤ] at this
      omega

/-- The tiles of the output cover it, each element once. -/
theorem Cuts.tile_of (h : a.Cuts dimIn) {Y : ℕ} (hY : Y < a.dimOut) :
    Y / a.yTile < a.tiles ∧ Y % a.yTile < a.ySize (Y / a.yTile) := by
  have hpos := h.tiles_pos
  have hle := h.last_le
  unfold dimOut at hY
  have htile : 0 < a.yTile := by
    rcases Nat.eq_zero_or_pos a.yTile with hzero | hpos
    · rw [hzero] at hle
      simp [hzero] at hY
      omega
    · exact hpos
  have hlt : Y / a.yTile < a.tiles := by
    refine (Nat.div_lt_iff_lt_mul htile).mpr (hY.trans_le ?_)
    calc (a.tiles - 1) * a.yTile + a.yTileLast ≤ (a.tiles - 1) * a.yTile + a.yTile := by omega
      _ = (a.tiles - 1 + 1) * a.yTile := (Nat.add_one_mul _ _).symm
      _ = a.tiles * a.yTile := by rw [Nat.sub_add_cancel hpos]
  refine ⟨hlt, ?_⟩
  unfold ySize
  split
  next hlast =>
    have hdiv := Nat.div_add_mod Y a.yTile
    have hindex : a.tiles - 1 = Y / a.yTile := by omega
    rw [hindex, Nat.mul_comm] at hY
    omega
  next => exact Nat.mod_lt Y htile

/-- A tile of the output ends in it. -/
theorem tile_le (ht : t < a.tiles) : t * a.yTile + a.ySize t ≤ a.dimOut := by
  unfold dimOut ySize
  split
  next hlast =>
    rw [show a.tiles - 1 = t by omega]
  next hnot =>
    have hmul : (t + 1) * a.yTile ≤ (a.tiles - 1) * a.yTile := Nat.mul_le_mul_right _ (by omega)
    rw [Nat.add_one_mul] at hmul
    omega

end Axis

end AiDeck.Lib.Tiles
