import Mathlib
import AiDeck.Lib.Dot
import AiDeck.Lib.Tiles

/-! # Convolutions

An image of several channels, padded with zero, and the sums of products of its windows with
the weights of a filter. The window may lie in memory as one line of bytes, and the image may
be cut into tiles along both axes. -/
namespace AiDeck.Lib.Convolution

open Finset Dot Tiles

/-- An image or a filter, by line, column and channel. -/
abbrev Feature (β : Type*) := ℕ → ℕ → ℕ → β

variable {β : Type*} [Zero β]

/-- The image with zero around it. -/
def padded (h w : ℕ) (f : Feature β) (y x : ℤ) (c : ℕ) : β :=
  if (0 ≤ y ∧ y < h) ∧ 0 ≤ x ∧ x < w then f y.toNat x.toNat c else 0

theorem padded_of_mem {h w : ℕ} {f : Feature β} {y x : ℤ} {c : ℕ} (hy : 0 ≤ y ∧ y < h)
    (hx : 0 ≤ x ∧ x < w) : padded h w f y x c = f y.toNat x.toNat c := if_pos ⟨hy, hx⟩

theorem padded_congr {h w : ℕ} {f g : Feature β} {c : ℕ}
    (hfg : ∀ y < h, ∀ x < w, f y x c = g y x c) (y x : ℤ) :
    padded h w f y x c = padded h w g y x c := by
  unfold padded
  split
  next hin => exact hfg _ (by omega) _ (by omega)
  next => rfl

/-- A window of a tile in which each place lies exactly if it lies in the image. -/
theorem padded_tile {h w h' w' : ℕ} {f g : Feature β} {y x oy ox : ℤ} {c : ℕ}
    (hoy : 0 ≤ oy) (hox : 0 ≤ ox)
    (hy : (0 ≤ y ∧ y < h') ↔ (0 ≤ y + oy ∧ y + oy < h))
    (hx : (0 ≤ x ∧ x < w') ↔ (0 ≤ x + ox ∧ x + ox < w))
    (htile : ∀ u < h', ∀ v < w', g u v c = f (u + oy.toNat) (v + ox.toNat) c) :
    padded h' w' g y x c = padded h w f (y + oy) (x + ox) c := by
  unfold padded
  simp only [← hy, ← hx]
  split
  next hin =>
    rw [htile _ (by omega) _ (by omega), Int.toNat_add hin.1.1 hoy, Int.toNat_add hin.2.1 hox]
  next => rfl

/-- The sum of the products of a window with a filter. -/
def convolve (kY kX ch : ℕ) (f : ℤ → ℤ → ℕ → UInt8) (g : Feature UInt8) (y x : ℤ) : ℤ :=
  ∑ i ∈ range kY, ∑ j ∈ range kX, ∑ c ∈ range ch, product (f (y + i) (x + j) c) (g i j c)

variable {kY kX ch : ℕ} {f f' : ℤ → ℤ → ℕ → UInt8} {g g' : Feature UInt8} {y x y' x' : ℤ}

theorem convolve_congr
    (hf : ∀ i < kY, ∀ j < kX, ∀ c < ch, f (y + i) (x + j) c = f' (y' + i) (x' + j) c)
    (hg : ∀ i < kY, ∀ j < kX, ∀ c < ch, g i j c = g' i j c) :
    convolve kY kX ch f g y x = convolve kY kX ch f' g' y' x' := by
  refine sum_congr rfl fun i hi => sum_congr rfl fun j hj => sum_congr rfl fun c hc => ?_
  have hi := mem_range.mp hi
  have hj := mem_range.mp hj
  have hc := mem_range.mp hc
  rw [hf i hi j hj c hc, hg i hi j hj c hc]

/-- A sum over the places of a block is one over its lines. -/
theorem sum_range_mul {M : Type*} [AddCommMonoid M] (F : ℕ → M) (m n : ℕ) :
    ∑ q ∈ range (m * n), F q = ∑ i ∈ range m, ∑ j ∈ range n, F (i * n + j) := by
  induction m with
  | zero => simp
  | succ m ih => rw [Nat.add_one_mul, sum_range_add, ih, sum_range_succ]

/-- The window as a line of bytes: by line, then by column, then by channel. -/
def line (kX ch : ℕ) (f : ℤ → ℤ → ℕ → UInt8) (y x : ℤ) (q : ℕ) : UInt8 :=
  f (y + (q / ch / kX : ℕ)) (x + (q / ch % kX : ℕ)) (q % ch)

/-- Where a place of the window is in its line. -/
theorem line_place {i j c : ℕ} (hj : j < kX) (hc : c < ch) :
    ((i * kX + j) * ch + c) / ch / kX = i ∧ ((i * kX + j) * ch + c) / ch % kX = j ∧
      ((i * kX + j) * ch + c) % ch = c := by
  have hquot : ((i * kX + j) * ch + c) / ch = i * kX + j := by
    rw [Nat.mul_comm, Nat.mul_add_div (by omega), Nat.div_eq_of_lt hc, Nat.add_zero]
  refine ⟨?_, ?_, ?_⟩
  · rw [hquot, Nat.mul_comm, Nat.mul_add_div (by omega), Nat.div_eq_of_lt hj, Nat.add_zero]
  · rw [hquot, Nat.mul_comm, Nat.mul_add_mod, Nat.mod_eq_of_lt hj]
  · rw [Nat.mul_comm, Nat.mul_add_mod, Nat.mod_eq_of_lt hc]

theorem line_eq {i j c : ℕ} (hj : j < kX) (hc : c < ch) :
    line kX ch f y x ((i * kX + j) * ch + c) = f (y + i) (x + j) c := by
  obtain ⟨hi, hj, hc⟩ := @line_place kX ch i j c hj hc
  rw [line, hi, hj, hc]

/-- **The dot product of two lines of bytes is the convolution.** -/
theorem total_line (w : ℕ → UInt8) :
    total (line kX ch f y x) w (kY * kX * ch) =
      convolve kY kX ch f (fun i j c => w ((i * kX + j) * ch + c)) y x := by
  rw [total, sum_range_mul, sum_range_mul]
  refine sum_congr rfl fun i _ => sum_congr rfl fun j hj => sum_congr rfl fun c hc => ?_
  rw [line_eq (mem_range.mp hj) (mem_range.mp hc)]

/-- **A convolution of a tile is a convolution of the image.** -/
theorem convolve_tile {a b : Axis} {h w t u Y X : ℕ} {f g : Feature UInt8} {k : Feature UInt8}
    (ha : a.Cuts h) (hb : b.Cuts w) (ht : t < a.tiles) (hu : u < b.tiles) (hY : Y < a.ySize t)
    (hX : X < b.ySize u) (htile : ∀ i < a.xSize t, ∀ j < b.xSize u, ∀ c < ch,
      g i j c = f (i + (a.xStart t).toNat) (j + (b.xStart u).toNat) c) :
    convolve a.kernel b.kernel ch (padded (a.xSize t) (b.xSize u) g) k
        (Y * a.stride - a.padBefore t) (X * b.stride - b.padBefore u) =
      convolve a.kernel b.kernel ch (padded h w f) k
        ((t * a.yTile + Y : ℕ) * a.stride - a.pad) ((u * b.yTile + X : ℕ) * b.stride - b.pad) := by
  refine convolve_congr (fun i hi j hj c hc => ?_) fun _ _ _ _ _ _ => rfl
  have hiff := ha.place_iff ht hY hi
  have hiff' := hb.place_iff hu hX hj
  push_cast
  rw [ha.place ht, hb.place hu] at *
  exact padded_tile (ha.xStart_nonneg ht) (hb.xStart_nonneg hu) hiff hiff'
    fun u hu v hv => htile u hu v hv c hc

end AiDeck.Lib.Convolution
