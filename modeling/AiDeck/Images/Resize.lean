import Mathlib
import AiDeck.Images.Kernels
import AiDeck.Lib.Loop

/-! # Image reduction

`resizeImage` of image_manipulations/test.c, with the accesses it makes to the two
images. The source image is an object of `width * height` bytes, so that no index
and no loop counter leaves the range of `int`. -/
namespace AiDeck.Images

open AiDeck.Lib.Loop

/-- An access to the old image, or one to the new image. -/
inductive Access where
  | read (i : Int)
  | write (i : Int) (v : UInt8)
  deriving DecidableEq, Repr

inductive ResizeStop where
  | divisionByZero
  | diverged
  deriving DecidableEq, Repr

structure Resized where
  accesses : List Access
  newWidth : Int
  newHeight : Int

/-- The accumulators of the window. -/
structure Intensities where
  sumIntensities : Int
  counter : Int

section
variable (signed : Bool) (oldImage : Int → UInt8) (width height resizeFactor : Int)

def Intensities.add (s : Intensities) (idxWindow : Int) : Intensities :=
  ⟨s.sumIntensities + promote signed (oldImage idxWindow), s.counter + 1⟩

/-- The loops over `n` and `m`: the values of `idx_window`, in order. -/
def window (y x : Int) : Except ResizeStop (List Int) :=
  forLoop .diverged (resizeFactor.tdiv 2) 1
    (fun n => forLoop .diverged (resizeFactor.tdiv 2) 1
      (fun m => .ok [(y + n) * width + (x + m)])
      (resizeFactor.toNat + 1) ((-resizeFactor).tdiv 2))
    (resizeFactor.toNat + 1) ((-resizeFactor).tdiv 2)

/-- The window around the pixel is averaged. -/
def Interior (y x : Int) : Prop :=
  y > resizeFactor.tdiv 2 ∧ y < height - resizeFactor.tdiv 2 ∧
    x > resizeFactor.tdiv 2 ∧ x < width - resizeFactor.tdiv 2

instance (y x : Int) : Decidable (Interior width height resizeFactor y x) :=
  inferInstanceAs (Decidable (_ ∧ _))

/-- The body of the loop over `x`. -/
def resizePixel (newWidth y x : Int) : Except ResizeStop (List Access) :=
  let idx := y * width + x
  let idxNew := y.tdiv resizeFactor * newWidth + x.tdiv resizeFactor
  if Interior width height resizeFactor y x then do
    let idxWindow ← window width resizeFactor y x
    let s := idxWindow.foldl (Intensities.add signed oldImage) ⟨0, 0⟩
    if s.counter = 0 then .error .divisionByZero
    else return idxWindow.map .read ++
      [.write idxNew (UInt8.ofInt (s.sumIntensities.tdiv s.counter))]
  else return [.read idx, .write idxNew (oldImage idx)]

/-- The loops over `y` and `x`. -/
def resizeLoops (newWidth : Int) : Except ResizeStop (List Access) :=
  forLoop .diverged height resizeFactor
    (fun y => forLoop .diverged width resizeFactor
      (fun x => resizePixel signed oldImage width height resizeFactor newWidth y x)
      (width.toNat + 1) 0)
    (height.toNat + 1) 0

def resizeImage : Except ResizeStop Resized :=
  if resizeFactor = 0 then .error .divisionByZero
  else do
    let newWidth := width.tdiv resizeFactor
    let newHeight := height.tdiv resizeFactor
    let accesses ← resizeLoops signed oldImage width height resizeFactor newWidth
    return ⟨accesses, newWidth, newHeight⟩

/-! ## What the caller relies on -/

/-- The reduction ends without a division by zero, reads pixels of the old image
and writes the pixels of the new one, all of them and nothing else. -/
def ResizeSafe : Prop :=
  ∃ r, resizeImage signed oldImage width height resizeFactor = .ok r ∧
    (r.newWidth = width / resizeFactor ∧ r.newHeight = height / resizeFactor) ∧
    (∀ i, .read i ∈ r.accesses → 0 ≤ i ∧ i < width * height) ∧
    ∀ i, (∃ v, .write i v ∈ r.accesses) ↔ 0 ≤ i ∧ i < r.newWidth * r.newHeight

end

/-! ## The window -/

section
variable {width resizeFactor : Int} (hf : 0 < resizeFactor) (y x : Int)
include hf

theorem window_runs : Runs (window width resizeFactor y x) := by
  have hneg : (-resizeFactor).tdiv 2 = -(resizeFactor.tdiv 2) := Int.neg_tdiv _ _
  have hhalf : resizeFactor.tdiv 2 = resizeFactor / 2 := Int.tdiv_eq_ediv_of_nonneg hf.le
  rw [window, hneg, forLoop_runs one_pos (by omega)]
  intro n _
  rw [forLoop_runs one_pos (by omega)]
  intro m _
  exact runs_ok _

theorem window_length {ws : List Int} (hws : window width resizeFactor y x = .ok ws) :
    ws.length = (2 * (resizeFactor / 2)).toNat * (2 * (resizeFactor / 2)).toNat := by
  have hneg : (-resizeFactor).tdiv 2 = -(resizeFactor.tdiv 2) := Int.neg_tdiv _ _
  have hhalf : resizeFactor.tdiv 2 = resizeFactor / 2 := Int.tdiv_eq_ediv_of_nonneg hf.le
  have hrounds : resizeFactor / 2 - -(resizeFactor / 2) = 2 * (resizeFactor / 2) := by ring
  rw [window, hneg, hhalf] at hws
  have hlength := forLoop_length (n := (2 * (resizeFactor / 2)).toNat) (fun n t ht => ?_) hws
  · rw [hlength, hrounds]
  · have hrow := forLoop_length (n := 1) (fun m u hu => by cases hu; rfl) ht
    rw [hrow, hrounds, Nat.mul_one]

theorem mem_window {ws : List Int} (hws : window width resizeFactor y x = .ok ws) {i : Int}
    (hi : i ∈ ws) :
    ∃ n m, (-(resizeFactor / 2) ≤ n ∧ n < resizeFactor / 2) ∧
      (-(resizeFactor / 2) ≤ m ∧ m < resizeFactor / 2) ∧ i = (y + n) * width + (x + m) := by
  have hneg : (-resizeFactor).tdiv 2 = -(resizeFactor.tdiv 2) := Int.neg_tdiv _ _
  have hhalf : resizeFactor.tdiv 2 = resizeFactor / 2 := Int.tdiv_eq_ediv_of_nonneg hf.le
  rw [window, hneg, hhalf] at hws
  obtain ⟨n, hn, t, ht, hit⟩ := (mem_forLoop one_pos hws).mp hi
  obtain ⟨m, hm, u, hu, hiu⟩ := (mem_forLoop one_pos ht).mp hit
  cases hu
  exact ⟨n, m, visits_one.mp hn, visits_one.mp hm, List.mem_singleton.mp hiu⟩

end

/-! ## One pixel -/

theorem counter_eq (signed : Bool) (oldImage : Int → UInt8) (l : List Int) (s : Intensities) :
    (l.foldl (Intensities.add signed oldImage) s).counter = s.counter + l.length := by
  induction l generalizing s with
  | nil => simp
  | cons i l ih =>
    rw [List.foldl_cons, ih, List.length_cons, Intensities.add]
    push_cast
    ring

/-- A row and a column of an image make an index into it. -/
theorem index_bounds {width height y x : Int} (hy : 0 ≤ y ∧ y < height) (hx : 0 ≤ x ∧ x < width) :
    0 ≤ y * width + x ∧ y * width + x < width * height := by
  have hrow : (y + 1) * width ≤ height * width := Int.mul_le_mul_of_nonneg_right hy.2 (by omega)
  have hpos : 0 ≤ y * width := Int.mul_nonneg hy.1 (by omega)
  rw [add_mul, one_mul] at hrow
  rw [mul_comm width]
  omega

section
variable {signed : Bool} {oldImage : Int → UInt8} {width height resizeFactor : Int}
  (hf : 0 < resizeFactor) {newWidth y x : Int}
include hf

/-- The window of an inner pixel is empty for a factor of one, and its average a
division by zero. -/
theorem resizePixel_interior (hin : Interior width height resizeFactor y x) {ws : List Int}
    (hws : window width resizeFactor y x = .ok ws) :
    resizePixel signed oldImage width height resizeFactor newWidth y x =
      if resizeFactor = 1 then .error .divisionByZero
      else
        let s := ws.foldl (Intensities.add signed oldImage) ⟨0, 0⟩
        .ok (ws.map .read ++ [.write (y.tdiv resizeFactor * newWidth + x.tdiv resizeFactor)
          (UInt8.ofInt (s.sumIntensities.tdiv s.counter))]) := by
  have hlength := window_length hf y x hws
  have hcounter := counter_eq signed oldImage ws ⟨0, 0⟩
  rw [hlength, zero_add] at hcounter
  have hzero : (ws.foldl (Intensities.add signed oldImage) ⟨0, 0⟩).counter = 0 ↔
      resizeFactor = 1 := by
    rw [hcounter, Int.natCast_eq_zero, mul_self_eq_zero]
    omega
  rw [resizePixel, if_pos hin, hws]
  simp only [bind, Except.bind, hzero]
  rfl

theorem resizePixel_runs :
    Runs (resizePixel signed oldImage width height resizeFactor newWidth y x) ↔
      ¬ (Interior width height resizeFactor y x ∧ resizeFactor = 1) := by
  by_cases hin : Interior width height resizeFactor y x
  · obtain ⟨ws, hws⟩ : Runs (window width resizeFactor y x) := window_runs hf y x
    rw [resizePixel_interior hf hin hws]
    by_cases hone : resizeFactor = 1
    · rw [if_pos hone]
      constructor
      · intro ⟨t, ht⟩
        cases ht
      · intro h
        exact absurd ⟨hin, hone⟩ h
    · rw [if_neg hone]
      simp [hone]
  · have hrun : Runs (resizePixel signed oldImage width height resizeFactor newWidth y x) := by
      rw [resizePixel, if_neg hin]
      exact runs_ok _
    simp [hin, hrun]

/-- A pixel reads inside of the old image, and writes once. -/
theorem resizePixel_ok (hy : 0 ≤ y ∧ y < height) (hx : 0 ≤ x ∧ x < width) {t : List Access}
    (ht : resizePixel signed oldImage width height resizeFactor newWidth y x = .ok t) :
    ∃ (idxs : List Int) (v : UInt8), t = idxs.map Access.read ++
        [.write (y.tdiv resizeFactor * newWidth + x.tdiv resizeFactor) v] ∧
      ∀ i ∈ idxs, 0 ≤ i ∧ i < width * height := by
  by_cases hin : Interior width height resizeFactor y x
  · obtain ⟨ws, hws⟩ : Runs (window width resizeFactor y x) := window_runs hf y x
    rw [resizePixel_interior hf hin hws] at ht
    by_cases hone : resizeFactor = 1
    · rw [if_pos hone] at ht
      cases ht
    · rw [if_neg hone] at ht
      cases ht
      refine ⟨ws, _, rfl, ?_⟩
      intro i hi
      obtain ⟨n, m, hn, hm, rfl⟩ := mem_window hf y x hws hi
      have hhalf : resizeFactor.tdiv 2 = resizeFactor / 2 := Int.tdiv_eq_ediv_of_nonneg hf.le
      obtain ⟨hy0, hy1, hx0, hx1⟩ := hin
      exact index_bounds (by omega) (by omega)
  · rw [resizePixel, if_neg hin] at ht
    cases ht
    refine ⟨[y * width + x], oldImage (y * width + x), rfl, ?_⟩
    intro i hi
    rw [List.mem_singleton.mp hi]
    exact index_bounds hy hx

/-! ## The whole image -/

theorem resizeLoops_runs :
    Runs (resizeLoops signed oldImage width height resizeFactor newWidth) ↔
      ∀ y, Visits height resizeFactor 0 y → ∀ x, Visits width resizeFactor 0 x →
        ¬ (Interior width height resizeFactor y x ∧ resizeFactor = 1) := by
  rw [resizeLoops, forLoop_runs hf (by omega)]
  apply forall₂_congr
  intro y _
  rw [forLoop_runs hf (by omega)]
  apply forall₂_congr
  intro x _
  exact resizePixel_runs hf

/-- The loops run to their end but for a factor of one on an image with an inner pixel. -/
theorem resizeLoops_runs_iff :
    Runs (resizeLoops signed oldImage width height resizeFactor newWidth) ↔
      2 ≤ resizeFactor ∨ width ≤ 1 ∨ height ≤ 1 := by
  rw [resizeLoops_runs hf]
  constructor
  · intro h
    by_contra hnot
    have hone : resizeFactor = 1 := by omega
    subst hone
    refine h 1 (visits_zero.mpr ⟨by omega, by omega, by simp⟩) 1
      (visits_zero.mpr ⟨by omega, by omega, by simp⟩) ⟨?_, rfl⟩
    have hhalf : (1 : Int).tdiv 2 = 0 := rfl
    rw [Interior, hhalf]
    omega
  · intro h y _ x _ ⟨hin, hone⟩
    subst hone
    have hhalf : (1 : Int).tdiv 2 = 0 := rfl
    rw [Interior, hhalf] at hin
    omega

theorem mem_resizeLoops {t : List Access}
    (ht : resizeLoops signed oldImage width height resizeFactor newWidth = .ok t) {a : Access} :
    a ∈ t ↔ ∃ y, Visits height resizeFactor 0 y ∧ ∃ x, Visits width resizeFactor 0 x ∧
      Emits (resizePixel signed oldImage width height resizeFactor newWidth y x) a := by
  have hrow := (forLoop_runs hf (by omega)).mp ⟨t, ht⟩
  rw [mem_forLoop hf ht]
  constructor
  · intro ⟨y, hy, h⟩
    exact ⟨y, hy, (forLoop_emits hf (hrow y hy)).mp h⟩
  · intro ⟨y, hy, h⟩
    exact ⟨y, hy, (forLoop_emits hf (hrow y hy)).mpr h⟩

theorem resizeLoops_reads {t : List Access}
    (ht : resizeLoops signed oldImage width height resizeFactor newWidth = .ok t) {i : Int}
    (hi : .read i ∈ t) : 0 ≤ i ∧ i < width * height := by
  obtain ⟨y, hy, x, hx, u, hu, hiu⟩ := (mem_resizeLoops hf ht).mp hi
  obtain ⟨hy0, hy1, -⟩ := visits_zero.mp hy
  obtain ⟨hx0, hx1, -⟩ := visits_zero.mp hx
  obtain ⟨idxs, v, rfl, hidxs⟩ := resizePixel_ok hf ⟨hy0, hy1⟩ ⟨hx0, hx1⟩ hu
  exact hidxs i (by simpa using hiu)

theorem resizeLoops_writes {t : List Access}
    (ht : resizeLoops signed oldImage width height resizeFactor newWidth = .ok t) {i : Int} :
    (∃ v, .write i v ∈ t) ↔ ∃ y, Visits height resizeFactor 0 y ∧ ∃ x,
      Visits width resizeFactor 0 x ∧
        i = y.tdiv resizeFactor * newWidth + x.tdiv resizeFactor := by
  constructor
  · intro ⟨v, hi⟩
    obtain ⟨y, hy, x, hx, u, hu, hiu⟩ := (mem_resizeLoops hf ht).mp hi
    obtain ⟨hy0, hy1, -⟩ := visits_zero.mp hy
    obtain ⟨hx0, hx1, -⟩ := visits_zero.mp hx
    obtain ⟨idxs, v', rfl, -⟩ := resizePixel_ok hf ⟨hy0, hy1⟩ ⟨hx0, hx1⟩ hu
    have hwrite : i = y.tdiv resizeFactor * newWidth + x.tdiv resizeFactor ∧ v = v' := by
      simpa using hiu
    exact ⟨y, hy, x, hx, hwrite.1⟩
  · intro ⟨y, hy, x, hx, hi⟩
    obtain ⟨hy0, hy1, -⟩ := visits_zero.mp hy
    obtain ⟨hx0, hx1, -⟩ := visits_zero.mp hx
    obtain ⟨u, hu⟩ : Runs (resizePixel signed oldImage width height resizeFactor newWidth y x) :=
      (resizePixel_runs hf).mpr ((resizeLoops_runs hf).mp ⟨t, ht⟩ y hy x hx)
    obtain ⟨idxs, v, rfl, -⟩ := resizePixel_ok hf ⟨hy0, hy1⟩ ⟨hx0, hx1⟩ hu
    refine ⟨v, (mem_resizeLoops hf ht).mpr ⟨y, hy, x, hx, _, hu, ?_⟩⟩
    rw [hi]
    simp

end

/-! ## When the reduction is safe -/

section
variable {width height f : Int} (hf : 0 < f)

/-- The indices written for the blocks of the image. -/
def Covered (width height f i : Int) : Prop :=
  ∃ y, Visits height f 0 y ∧ ∃ x, Visits width f 0 x ∧ i = y.tdiv f * (width / f) + x.tdiv f

include hf

theorem covered_iff {i : Int} :
    Covered width height f i ↔ ∃ k j, (0 ≤ k ∧ f * k < height) ∧ (0 ≤ j ∧ f * j < width) ∧
      i = k * (width / f) + j := by
  have hdiv : ∀ k : Int, (f * k).tdiv f = k := fun k => Int.mul_tdiv_cancel_left k hf.ne'
  constructor
  · intro ⟨y, hy, x, hx, hi⟩
    obtain ⟨k, hk0, hk, rfl⟩ := (visits_multiples hf).mp hy
    obtain ⟨j, hj0, hj, rfl⟩ := (visits_multiples hf).mp hx
    rw [hdiv, hdiv] at hi
    exact ⟨k, j, ⟨hk0, hk⟩, ⟨hj0, hj⟩, hi⟩
  · intro ⟨k, j, ⟨hk0, hk⟩, ⟨hj0, hj⟩, hi⟩
    refine ⟨f * k, (visits_multiples hf).mpr ⟨k, hk0, hk, rfl⟩, f * j,
      (visits_multiples hf).mpr ⟨j, hj0, hj, rfl⟩, ?_⟩
    rw [hdiv, hdiv, hi]

/-- Complete blocks are the pixels of the result. -/
theorem covered_of_dvd (hw : f ≤ width) (hdw : f ∣ width) (hdh : f ∣ height) {i : Int} :
    Covered width height f i ↔ 0 ≤ i ∧ i < width / f * (height / f) := by
  rw [covered_iff hf]
  obtain ⟨W, rfl⟩ := hdw
  obtain ⟨H, rfl⟩ := hdh
  have hWpos : 0 < W := pos_of_mul_pos_right (Int.lt_of_lt_of_le hf hw) hf.le
  rw [Int.mul_ediv_cancel_left _ hf.ne', Int.mul_ediv_cancel_left _ hf.ne']
  constructor
  · intro ⟨k, j, ⟨hk0, hk⟩, ⟨hj0, hj⟩, hi⟩
    rw [hi]
    exact index_bounds ⟨hk0, Int.lt_of_mul_lt_mul_left hk hf.le⟩
      ⟨hj0, Int.lt_of_mul_lt_mul_left hj hf.le⟩
  · intro ⟨h0, hlt⟩
    rw [mul_comm W] at hlt
    have hk : i / W < H := Int.ediv_lt_of_lt_mul hWpos hlt
    have hj : i % W < W := Int.emod_lt_of_pos i hWpos
    refine ⟨i / W, i % W, ⟨Int.ediv_nonneg h0 hWpos.le, Int.mul_lt_mul_of_pos_left hk hf⟩,
      ⟨Int.emod_nonneg i hWpos.ne', Int.mul_lt_mul_of_pos_left hj hf⟩, ?_⟩
    rw [mul_comm, Int.mul_ediv_add_emod]

/-- An incomplete block starts after the last complete one. -/
theorem last_block {n : Int} (hn : ¬ f ∣ n) : f * (n / f) < n := by
  have hmod := Int.emod_pos_of_not_dvd hn
  have hsum := Int.mul_ediv_add_emod n f
  omega

/-- An incomplete block is written behind the result. -/
theorem dvd_of_covered (hw : f ≤ width) (hh : f ≤ height)
    (h : ∀ i, Covered width height f i → i < width / f * (height / f)) :
    f ∣ width ∧ f ∣ height := by
  have hW : 1 ≤ width / f := by
    rw [Int.le_ediv_iff_mul_le hf]
    omega
  have hH : 1 ≤ height / f := by
    rw [Int.le_ediv_iff_mul_le hf]
    omega
  have hrow : f * (height / f) ≤ height := Int.mul_ediv_self_le hf.ne'
  constructor
  · -- the incomplete block at the end of the last full row
    by_contra hnot
    have hlast : f * (height / f - 1) < height := by
      rw [mul_sub, mul_one]
      omega
    have hbad := h _ ((covered_iff hf).mpr ⟨height / f - 1, width / f, ⟨by omega, hlast⟩,
      ⟨by omega, last_block hf hnot⟩, rfl⟩)
    rw [sub_mul, one_mul, mul_comm (width / f)] at hbad
    omega
  · -- the first block below the last full row
    by_contra hnot
    have hbad := h _ ((covered_iff hf).mpr ⟨height / f, 0, ⟨by omega, last_block hf hnot⟩,
      ⟨le_refl 0, by omega⟩, rfl⟩)
    rw [mul_comm (width / f)] at hbad
    omega

end

theorem resizeImage_ok {signed : Bool} {oldImage : Int → UInt8} {width height resizeFactor : Int}
    (hf : 0 < resizeFactor) (hw : resizeFactor ≤ width) (hh : resizeFactor ≤ height) {r : Resized} :
    resizeImage signed oldImage width height resizeFactor = .ok r ↔
      ∃ t, resizeLoops signed oldImage width height resizeFactor (width / resizeFactor) = .ok t ∧
        r = ⟨t, width / resizeFactor, height / resizeFactor⟩ := by
  rw [resizeImage, if_neg hf.ne', Int.tdiv_eq_ediv_of_nonneg (by omega),
    Int.tdiv_eq_ediv_of_nonneg (by omega)]
  cases ht : resizeLoops signed oldImage width height resizeFactor (width / resizeFactor) with
  | error e => simp [ht, bind, Except.bind]
  | ok t => simp [ht, bind, Except.bind, pure, Except.pure, eq_comm]

section
variable {signed : Bool} {oldImage : Int → UInt8} {width height resizeFactor : Int}
  (hf : 1 ≤ resizeFactor) (hw : resizeFactor ≤ width) (hh : resizeFactor ≤ height)
include hf hw hh

theorem ResizeSafe.multiple (h : ResizeSafe signed oldImage width height resizeFactor) :
    resizeFactor ∣ width ∧ resizeFactor ∣ height := by
  obtain ⟨r, hr, _, _, hwrites⟩ := h
  obtain ⟨t, ht, rfl⟩ := (resizeImage_ok hf hw hh).mp hr
  exact dvd_of_covered hf hw hh fun i hi =>
    ((hwrites i).mp ((resizeLoops_writes hf ht).mpr hi)).2

theorem ResizeSafe.divides (h : ResizeSafe signed oldImage width height resizeFactor) :
    2 ≤ resizeFactor ∨ width ≤ 1 ∨ height ≤ 1 := by
  obtain ⟨r, hr, _⟩ := h
  obtain ⟨t, ht, _⟩ := (resizeImage_ok hf hw hh).mp hr
  exact (resizeLoops_runs_iff hf).mp ⟨t, ht⟩

/-- **When the reduction is safe**: the factor divides both sizes, and for a
factor of one no pixel lies inside of the image. -/
theorem resizeSafe_iff :
    ResizeSafe signed oldImage width height resizeFactor ↔
      resizeFactor ∣ width ∧ resizeFactor ∣ height ∧
        (2 ≤ resizeFactor ∨ width = 1 ∨ height = 1) := by
  constructor
  · intro h
    obtain ⟨hdw, hdh⟩ := h.multiple hf hw hh
    have hinner := h.divides hf hw hh
    exact ⟨hdw, hdh, by omega⟩
  · intro ⟨hdw, hdh, hinner⟩
    obtain ⟨t, ht⟩ : Runs (resizeLoops signed oldImage width height resizeFactor
        (width / resizeFactor)) := (resizeLoops_runs_iff hf).mpr (by omega)
    refine ⟨_, (resizeImage_ok hf hw hh).mpr ⟨t, ht, rfl⟩, ⟨rfl, rfl⟩, ?_, ?_⟩
    · intro i hi
      exact resizeLoops_reads hf ht hi
    · intro i
      exact (resizeLoops_writes hf ht).trans (covered_of_dvd hf hw hdw hdh)

end

/-- The demo's image with four rows less, which makes the height a multiple of the factor. -/
theorem resizeSafe_multiple : ResizeSafe false (fun _ => 0) 324 240 6 :=
  (resizeSafe_iff (by decide) (by decide) (by decide)).mpr (by decide)

/-- The demo's image, and a factor of one. -/
theorem resize_unsafe_demo :
    ¬ ResizeSafe false (fun _ => 0) 324 244 6 ∧ ¬ ResizeSafe false (fun _ => 0) 2 2 1 := by
  constructor
  · intro h
    exact absurd (h.multiple (by decide) (by decide) (by decide)).2 (by decide)
  · intro h
    exact absurd (h.divides (by decide) (by decide) (by decide)) (by decide)

end AiDeck.Images
