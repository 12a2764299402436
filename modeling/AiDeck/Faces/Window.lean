import Mathlib
import AiDeck.Lib.Summed
import AiDeck.Faces.Integral
import AiDeck.Faces.SquareRoot

/-! # The windows of the face detection

A window is classified by sums over rectangles, each from four words of an integral
image. The word of a line and a column holds the sum up to and including both, so the
four words stand for the rectangle one line and one column further on than the window;
`KerEvaluateCascade` goes on to windows whose rectangle is no longer in the image. -/
namespace AiDeck.Faces

open Finset AiDeck.Lib.Summed

/-! ## Lookups -/

/-- The words that `integral_image_lookup` reads: those it adds and those it subtracts. -/
structure Corners where
  far : Int
  near : Int
  right : Int
  below : Int

def corners (x y w h winW : Int) : Corners where
  far := (h + y) * winW + w + x
  near := y * winW + x
  right := y * winW + w + x
  below := (h + y) * winW + x

/-- `integral_image_lookup`; the sum is `unsigned`, what it returns an `int`. -/
def integralImageLookup (integralImage : Int → UInt32) (x y w h winW : Int) : Int32 :=
  let c := corners x y w h winW
  (integralImage c.far + integralImage c.near - integralImage c.right -
    integralImage c.below).toInt32

/-- An integral image of `winH` lines: the sums up to each line and column. -/
def IsTable (integralImage : Int → UInt32) (f : Nat → Nat → UInt32) (winW winH : Nat) : Prop :=
  ∀ r < winH, ∀ c < winW, integralImage ((r * winW + c : Nat) : Int) = corner f (r + 1) (c + 1)

/-- **A lookup inside of the image is the sum over a rectangle of pixels**, the one that
begins a line below and a column right of the place it is asked for. -/
theorem integralImageLookup_eq {integralImage : Int → UInt32} {f : Nat → Nat → UInt32}
    {winW winH x y w h : Nat} (htable : IsTable integralImage f winW winH)
    (hx : x + w < winW) (hy : y + h < winH) :
    integralImageLookup integralImage x y w h winW =
      (∑ i ∈ Ico (y + 1) (y + h + 1), ∑ j ∈ Ico (x + 1) (x + w + 1), f i j).toInt32 := by
  have hfar := htable (y + h) hy (x + w) hx
  have hnear := htable y (by omega) x (by omega)
  have hright := htable y (by omega) (x + w) hx
  have hbelow := htable (y + h) hy x (by omega)
  rw [sum_rectangle f (by omega) (by omega), ← hfar, ← hnear, ← hright, ← hbelow,
    integralImageLookup]
  simp only [corners]
  congr 5 <;> push_cast <;> ring

/-! ## Sums of pixels -/

/-- A sum of words that fits in an `int`. -/
theorem toInt_sum {ι : Type*} (s : Finset ι) (f : ι → UInt32)
    (hsmall : ∑ i ∈ s, (f i).toNat < 2 ^ 31) :
    (∑ i ∈ s, f i).toInt32.toInt = ∑ i ∈ s, ((f i).toNat : Int) := by
  have htoNat : (∑ i ∈ s, f i).toNat = ∑ i ∈ s, (f i).toNat := by
    classical
    induction s using Finset.induction_on with
    | empty => rfl
    | insert i s hi ih =>
      rw [sum_insert hi] at hsmall ⊢
      rw [sum_insert hi, UInt32.toNat_add, ih (by omega), Nat.mod_eq_of_lt (by omega)]
  rw [← Nat.cast_sum, ← htoNat]
  rw [← htoNat] at hsmall
  rw [UInt32.toInt32]
  exact BitVec.toInt_eq_toNat_of_lt (by
    change 2 * (∑ i ∈ s, f i).toNat < 2 ^ 32
    omega)

/-! ## The deviation of a window -/

/-- What `windows_cascade_classifier` computes before it evaluates the stages. -/
structure WindowSums where
  n : Int32
  i_s : Int32
  i_sq : Int32

def windowSums (integralImage squaredIntegralImage : Int → UInt32) (winW winH : UInt8)
    (imgW offX offY : Int) : WindowSums where
  n := winW.toUInt32.toInt32 * winH.toUInt32.toInt32
  i_s := integralImageLookup integralImage offX offY winW.toNat winH.toNat imgW
  i_sq := integralImageLookup squaredIntegralImage offX offY winW.toNat winH.toNat imgW

/-- `v`, by which homogeneous windows are skipped. -/
def WindowSums.v (s : WindowSums) : Int32 :=
  let m := s.i_s / s.n
  s.i_sq / s.n - m * m

/-- `std` before the root is drawn, as the root takes it. -/
def WindowSums.square (s : WindowSums) : UInt32 := (s.i_sq * s.n - s.i_s * s.i_s).toUInt32

theorem squaredPixel_toNat (p : UInt8) : (squaredPixel p).toNat = p.toNat ^ 2 := by
  have hp := p.toNat_lt
  have hle : p.toNat * p.toNat ≤ 255 * 255 := Nat.mul_le_mul (by omega) (by omega)
  rw [squaredPixel, UInt32.toNat_mul, UInt8.toNat_toUInt32, Nat.mod_eq_of_lt (by omega), sq]

/-- A rectangle of pixels whose sum fits in an `int`. -/
theorem sum_rectangle_toInt (value : Summand) (img : Nat → Nat → UInt8) (x y w h : Nat)
    (hfit : ∑ p ∈ Ico y (y + h) ×ˢ Ico x (x + w), (value (img p.1 p.2)).toNat < 2 ^ 31) :
    (∑ i ∈ Ico y (y + h), ∑ j ∈ Ico x (x + w), value (img i j)).toInt32.toInt =
      ∑ p ∈ Ico y (y + h) ×ˢ Ico x (x + w), ((value (img p.1 p.2)).toNat : Int) := by
  rw [← sum_product']
  exact toInt_sum _ _ hfit

/-- An `int` converted to `unsigned int`. -/
theorem toUInt32_toNat (a : Int32) : (a.toUInt32.toNat : Int) = a.toInt % 2 ^ 32 := by
  have hcond := a.toBitVec.toInt_eq_toNat_cond
  have hlt := a.toBitVec.isLt
  change (a.toBitVec.toNat : Int) = a.toBitVec.toInt % 2 ^ 32
  split at hcond <;> omega

/-- The square may wrap around on the way; what comes out of it is right. -/
theorem WindowSums.square_toNat (s : WindowSums) :
    (s.square.toNat : Int) = (s.i_sq.toInt * s.n.toInt - s.i_s.toInt * s.i_s.toInt) % 2 ^ 32 := by
  rw [WindowSums.square, toUInt32_toNat, Int32.toInt_sub, Int32.toInt_mul, Int32.toInt_mul,
    Int.sub_bmod_bmod, Int.bmod_sub_bmod]
  exact Int.bmod_emod

theorem window_n_toInt (winW winH : UInt8) :
    (winW.toUInt32.toInt32 * winH.toUInt32.toInt32).toInt = winW.toNat * winH.toNat := by
  have hw := winW.toNat_lt
  have hh := winH.toNat_lt
  have hle : winW.toNat * winH.toNat ≤ 255 * 255 := Nat.mul_le_mul (by omega) (by omega)
  have hint (u : UInt8) : u.toUInt32.toInt32.toInt = u.toNat := by
    have hu := u.toNat_lt
    exact BitVec.toInt_eq_toNat_of_lt (by
      change 2 * u.toNat < 2 ^ 32
      omega)
  rw [Int32.toInt_mul, hint, hint, ← Nat.cast_mul, Int.bmod_eq_of_le (by omega) (by omega)]

section
variable {integralImage squaredIntegralImage : Int → UInt32} {img : Nat → Nat → UInt8}
  {imgW imgH x y : Nat} {winW winH : UInt8}

/-- The pixels that the lookups of a window sum up. -/
def windowPixels (x y : Nat) (winW winH : UInt8) : Finset (Nat × Nat) :=
  Ico (y + 1) (y + 1 + winH.toNat) ×ˢ Ico (x + 1) (x + 1 + winW.toNat)

theorem card_windowPixels : (windowPixels x y winW winH).card = winW.toNat * winH.toNat := by
  rw [windowPixels, card_product, Nat.card_Ico, Nat.card_Ico, Nat.add_sub_cancel_left,
    Nat.add_sub_cancel_left, Nat.mul_comm]

/-- How far the pixels of a window are apart: their number times the sum of their squares,
less the square of their sum. -/
def windowSpread (img : Nat → Nat → UInt8) (x y : Nat) (winW winH : UInt8) : Int :=
  winW.toNat * winH.toNat * ∑ p ∈ windowPixels x y winW winH, ((img p.1 p.2).toNat : Int) ^ 2 -
    (∑ p ∈ windowPixels x y winW winH, ((img p.1 p.2).toNat : Int)) ^ 2

variable (hI : IsTable integralImage (fun i j => pixel (img i j)) imgW imgH)
  (hS : IsTable squaredIntegralImage (fun i j => squaredPixel (img i j)) imgW imgH)
  (hx : x + winW.toNat < imgW) (hy : y + winH.toNat < imgH)
  (hfit : ∑ p ∈ windowPixels x y winW winH, (img p.1 p.2).toNat ^ 2 < 2 ^ 31)
include hI hS hx hy hfit

theorem windowSums_eq :
    (windowSums integralImage squaredIntegralImage winW winH imgW x y).i_s.toInt =
      ∑ p ∈ windowPixels x y winW winH, ((img p.1 p.2).toNat : Int) ∧
    (windowSums integralImage squaredIntegralImage winW winH imgW x y).i_sq.toInt =
      ∑ p ∈ windowPixels x y winW winH, ((img p.1 p.2).toNat : Int) ^ 2 := by
  -- no pixel is larger than its square
  have hle : ∑ p ∈ windowPixels x y winW winH, (img p.1 p.2).toNat ≤
      ∑ p ∈ windowPixels x y winW winH, (img p.1 p.2).toNat ^ 2 :=
    sum_le_sum fun p _ => Nat.le_self_pow (by decide) _
  have hsum := sum_rectangle_toInt pixel img (x + 1) (y + 1) winW.toNat winH.toNat
    (lt_of_le_of_lt hle hfit)
  have hsquares := sum_rectangle_toInt squaredPixel img (x + 1) (y + 1) winW.toNat
    winH.toNat (by simpa only [squaredPixel_toNat, windowPixels] using hfit)
  simp only [Nat.add_right_comm _ 1] at hsum hsquares
  simp only [windowSums, windowPixels, Nat.add_right_comm _ 1]
  rw [integralImageLookup_eq hI hx hy, integralImageLookup_eq hS hx hy, hsum, hsquares]
  refine ⟨rfl, sum_congr rfl fun p _ => ?_⟩
  rw [squaredPixel_toNat]
  push_cast
  rfl

end

/-- The integral image of `winW` columns, all lines of it. -/
def tableOf (f : Nat → Nat → UInt32) (winW : Nat) (i : Int) : UInt32 :=
  corner f (i.toNat / winW + 1) (i.toNat % winW + 1)

theorem isTable_tableOf (f : Nat → Nat → UInt32) (winW winH : Nat) :
    IsTable (tableOf f winW) f winW winH := by
  intro r _ c hc
  rw [tableOf, Int.toNat_natCast, Nat.mul_comm, Nat.mul_add_div (by omega), Nat.mul_add_mod,
    Nat.div_eq_of_lt hc, Nat.mod_eq_of_lt hc, Nat.add_zero]

/-- A dark image but for one pixel. -/
def brightPixel (i j : Nat) : UInt8 := if i = 1 ∧ j = 1 then 8 else 0

/-- `DETECT_STRIDE`. -/
def detectStride : Nat := 1

/-- Line and column of the windows that `KerEvaluateCascade` classifies, in order. -/
def evaluatedWindows (w h : UInt32) (winW winH : UInt8) : List (Nat × Nat) :=
  ((List.range (h - winW.toUInt32 + 1).toNat).flatMap fun line =>
    (List.range (w - winH.toUInt32 + 1).toNat).map fun col => (line, col)).filter
      fun p => p.1 % detectStride = 0 ∧ p.2 % detectStride = 0

/-- The words of a lookup are words of an integral image of that size. -/
def Corners.Inside (c : Corners) (size : Int) : Prop :=
  ∀ i ∈ [c.far, c.near, c.right, c.below], 0 ≤ i ∧ i < size

/-- The word furthest down decides whether a lookup stays in the image. -/
theorem corners_inside_iff {x y winW winH w h : Nat} (hw : 0 < w) :
    (corners x y winW winH w).Inside (w * h) ↔ y + winH + (x + winW) / w < h := by
  have hfar : (corners x y winW winH w).Inside (w * h) ↔
      (y + winH) * w + (x + winW) < w * h := by
    have hle : (y : Int) * w ≤ (winH + y) * w := by
      refine mul_le_mul_of_nonneg_right ?_ (by positivity)
      omega
    have hpos : 0 ≤ (y : Int) * w := by positivity
    zify
    simp only [Corners.Inside, corners, List.forall_mem_cons, List.not_mem_nil, false_implies,
      implies_true, and_true]
    constructor
    · intro ⟨hlast, _⟩
      linarith
    · intro hlast
      refine ⟨⟨?_, ?_⟩, ⟨?_, ?_⟩, ⟨?_, ?_⟩, ?_, ?_⟩ <;> linarith
  rw [hfar, Nat.mul_comm w, ← Nat.div_lt_iff_lt_mul hw, Nat.add_comm,
    Nat.add_mul_div_right _ _ hw, Nat.add_comm]

section
variable {w h : UInt32} {winW winH : UInt8}

theorem windows_toNat {u : UInt32} {win : UInt8} (hwin : 0 < win.toNat)
    (hu : win.toNat ≤ u.toNat) : (u - win.toUInt32 + 1).toNat = u.toNat - win.toNat + 1 := by
  have hle : win.toUInt32 ≤ u := UInt32.le_iff_toNat_le.mpr hu
  have hmax := u.toNat_lt
  rw [UInt32.toNat_add, UInt32.toNat_sub_of_le _ _ hle, UInt8.toNat_toUInt32, UInt32.toNat_one,
    Nat.mod_eq_of_lt (by omega)]

variable (hwinW : 0 < winW.toNat) (hwinH : 0 < winH.toNat) (hh : winW.toNat ≤ h.toNat)
  (hw : winH.toNat ≤ w.toNat)
include hwinW hwinH hh hw

/-- The lines go by the width of the window, the columns by its height. -/
theorem mem_evaluatedWindows {line col : Nat} :
    (line, col) ∈ evaluatedWindows w h winW winH ↔
      line + winW.toNat ≤ h.toNat ∧ col + winH.toNat ≤ w.toNat := by
  have hstride (n : Nat) : n % detectStride = 0 := Nat.mod_one n
  simp only [evaluatedWindows, List.mem_filter, List.mem_flatMap, List.mem_map, List.mem_range,
    windows_toNat hwinW hh, windows_toNat hwinH hw, hstride, and_self, decide_true, and_true,
    Prod.mk.injEq]
  constructor
  · rintro ⟨_, hline, _, hcol, rfl, rfl⟩
    omega
  · intro ⟨hline, hcol⟩
    exact ⟨line, by omega, col, by omega, rfl, rfl⟩

/-- Some window is looked up outside of the image unless the windows are wider than high by
so much that the lines, which go by the width, end early enough. -/
theorem exists_outside_iff :
    (∃ p ∈ evaluatedWindows w h winW winH,
      ¬ (corners p.2 p.1 winW.toNat winH.toNat w.toNat).Inside (w.toNat * h.toNat)) ↔
        (winW.toNat - winH.toNat) * (w.toNat - 1) ≤ w.toNat := by
  have hpos : 0 < w.toNat := by omega
  have hout (p : Nat × Nat) :
      ¬ (corners p.2 p.1 winW.toNat winH.toNat w.toNat).Inside (w.toNat * h.toNat) ↔
        h.toNat * w.toNat ≤ (p.1 + winH.toNat) * w.toNat + (p.2 + winW.toNat) := by
    rw [corners_inside_iff hpos, Nat.not_lt, Nat.add_comm (_ + _),
      ← Nat.add_mul_div_right _ _ hpos, Nat.le_div_iff_mul_le hpos, Nat.add_comm (_ + _)]
  have hdiff : (winW.toNat - winH.toNat) * (w.toNat - 1) ≤ w.toNat ↔
      (winW.toNat - winH.toNat) * w.toNat ≤ w.toNat + (winW.toNat - winH.toNat) := by
    rw [Nat.mul_sub_one, Nat.sub_le_iff_le_add]
  simp only [hout, hdiff]
  constructor
  · intro ⟨⟨line, col⟩, hp, hlast⟩
    obtain ⟨hline, hcol⟩ := (mem_evaluatedWindows hwinW hwinH hh hw).mp hp
    dsimp only at hlast
    rcases Nat.le_total winW.toNat winH.toNat with hle | hle
    · rw [Nat.sub_eq_zero_of_le hle, Nat.zero_mul]
      omega
    · have hlines : (line + winH.toNat + (winW.toNat - winH.toNat)) * w.toNat ≤
          h.toNat * w.toNat := Nat.mul_le_mul_right _ (by omega)
      rw [Nat.add_mul] at hlines
      omega
  · intro hsmall
    refine ⟨(h.toNat - winW.toNat, w.toNat - winH.toNat),
      (mem_evaluatedWindows hwinW hwinH hh hw).mpr (by omega), ?_⟩
    dsimp only
    rcases Nat.le_total winW.toNat winH.toNat with hle | hle
    · have hlines : h.toNat * w.toNat ≤ (h.toNat - winW.toNat + winH.toNat) * w.toNat :=
        Nat.mul_le_mul_right _ (by omega)
      omega
    · have hlines : h.toNat * w.toNat =
          (h.toNat - winW.toNat + winH.toNat) * w.toNat + (winW.toNat - winH.toNat) * w.toNat := by
        rw [← Nat.add_mul]
        congr 1
        omega
      omega

/-- With a square window, as the face detection has it, that is always so. -/
theorem exists_outside_of_square (hsquare : winW = winH) :
    ∃ p ∈ evaluatedWindows w h winW winH,
      ¬ (corners p.2 p.1 winW.toNat winH.toNat w.toNat).Inside (w.toNat * h.toNat) := by
  rw [exists_outside_iff hwinW hwinH hh hw, hsquare, Nat.sub_self, Nat.zero_mul]
  exact Nat.zero_le _

/-- **Which windows are looked up inside of the image**: those whose last pixel, counted on
from the first column where it falls behind the last one, is above the last line. -/
theorem evaluatedWindows_inside :
    (∀ p ∈ evaluatedWindows w h winW winH,
      (corners p.2 p.1 winW.toNat winH.toNat w.toNat).Inside (w.toNat * h.toNat) ↔
        p.1 + winH.toNat + (p.2 + winW.toNat) / w.toNat < h.toNat) ∧
    ((∃ p ∈ evaluatedWindows w h winW winH,
      ¬ (corners p.2 p.1 winW.toNat winH.toNat w.toNat).Inside (w.toNat * h.toNat)) ↔
        (winW.toNat - winH.toNat) * (w.toNat - 1) ≤ w.toNat) :=
  ⟨fun _ _ => corners_inside_iff (by omega), exists_outside_iff hwinW hwinH hh hw⟩

end

/-- Windows of four columns and two lines leave no lookup of an 8 × 8 image outside. -/
theorem evaluatedWindows_inside_wide :
    (∀ p ∈ evaluatedWindows 8 8 4 2, (corners p.2 p.1 4 2 8).Inside (8 * 8) ↔
      p.1 + 2 + (p.2 + 4) / 8 < 8) ∧
    ((∃ p ∈ evaluatedWindows 8 8 4 2, ¬ (corners p.2 p.1 4 2 8).Inside (8 * 8)) ↔
      (4 - 2) * (8 - 1) ≤ 8) :=
  evaluatedWindows_inside (w := 8) (h := 8) (by decide : 0 < (4 : UInt8).toNat)
    (by decide : 0 < (2 : UInt8).toNat) (by decide) (by decide)

end AiDeck.Faces
