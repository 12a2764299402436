import Mathlib
import AiDeck.Lib.Share

/-! # The image kernels of the simple_kernel_example

Each kernel of img_proc.c exists twice: a loop over the whole image in `int`
arithmetic, and a loop over one core's share of it in `uint32_t` arithmetic. A
kernel is modelled by the stores it does, in order. -/
namespace AiDeck.Images

open AiDeck.Lib.Share

/-- Position in the output buffer and the `char` stored there. -/
abbrev Stores := List (Int × UInt8)

/-- A `char` as an operand; the compiler decides on its sign. -/
def promote (signed : Bool) (c : UInt8) : Int := if signed then c.toInt8.toInt else c.toNat

def xShift : Int := 0
def yShift : Int := 0

/-- What the arithmetic of a loop body yields for a pixel: whether it lies on the
border, its index, those of its neighbours, and the remainders that tell its colour. -/
structure Pixel where
  border : Bool
  idx : Int
  idxr : Fin 8 → Int
  xMod : Int
  yMod : Int

section
variable (signed : Bool) (input : Int → UInt8)

/-- The mean of some pixels, converted back to `char`. -/
def mean (idxs : List Int) : UInt8 :=
  UInt8.ofInt ((idxs.map fun i => promote signed (input i)).sum.tdiv idxs.length)

/-- `red`, `green` and `blue` of an inner pixel. -/
def Pixel.colours (p : Pixel) : UInt8 × UInt8 × UInt8 :=
  let diagonal := mean signed input [p.idxr 0, p.idxr 2, p.idxr 4, p.idxr 6]
  let adjacent := mean signed input [p.idxr 1, p.idxr 3, p.idxr 5, p.idxr 7]
  let horizontal := mean signed input [p.idxr 1, p.idxr 5]
  let vertical := mean signed input [p.idxr 3, p.idxr 7]
  if p.xMod = 0 ∧ p.yMod = 0 then (input p.idx, adjacent, diagonal)
  else if p.xMod = 1 ∧ p.yMod = 0 then (horizontal, input p.idx, vertical)
  else if p.xMod = 0 ∧ p.yMod = 1 then (vertical, input p.idx, horizontal)
  else if p.xMod = 1 ∧ p.yMod = 1 then (diagonal, adjacent, input p.idx)
  else (0, 0, 0)

/-- The body of the loops of `demosaicking` and `cluster_demosaicking`. -/
def Pixel.stores (grayscale : Bool) (p : Pixel) : Stores :=
  if p.border then
    if grayscale then [(p.idx, 0)]
    else [(p.idx * 3, 0), (p.idx * 3 + 1, 0), (p.idx * 3 + 2, 0)]
  else
    let (red, green, blue) := p.colours signed input
    if grayscale then
      [(p.idx, UInt8.ofInt
        ((promote signed red + promote signed green + promote signed blue).tdiv 3))]
    else [(p.idx * 3, red), (p.idx * 3 + 1, green), (p.idx * 3 + 2, blue)]

/-! ## The serial kernels -/

def pixel (width height y x : Int) : Pixel where
  border := x = 0 ∨ y = 0 ∨ x = width - 1 ∨ y = height - 1
  idx := y * width + x
  idxr := ![(y - 1) * width + (x - 1), y * width + (x - 1), (y + 1) * width + (x - 1),
    (y + 1) * width + x, (y + 1) * width + (x + 1), y * width + (x + 1),
    (y - 1) * width + (x + 1), (y - 1) * width + x]
  xMod := (x + xShift).tmod 2
  yMod := (y + yShift).tmod 2

def demosaicking (width height grayscale : Int) : Stores :=
  (List.range height.toNat).flatMap fun y : Nat => (List.range width.toNat).flatMap fun x : Nat =>
    (pixel width height y x).stores signed input (grayscale ≠ 0)

def inverting (width height : Int) : Stores :=
  (List.range height.toNat).flatMap fun y : Nat => (List.range width.toNat).map fun x : Nat =>
    let idx : Int := y * width + x
    (idx, UInt8.ofInt (255 - promote signed (input idx)))

end

/-! ## The kernels of a core -/

/-- `plp_example_kernel_instance_i32`; the result buffer is a memory of its own. -/
structure KernelInstance where
  srcBuffer : Int → UInt8
  width : UInt32
  height : UInt32
  nPE : UInt32
  grayscale : UInt32

/-- A `uint32_t` converted to `int`. -/
def toInt (u : UInt32) : Int := u.toInt32.toInt

/-- `for (i = start; i < upper_bound; i++)`. -/
def upto (start upperBound : UInt32) : List UInt32 :=
  (List.range' start.toNat (upperBound.toNat - start.toNat)).map UInt32.ofNat

/-- The positions of a core: rows in `cluster_demosaicking`, pixels in `cluster_inverting`. -/
def share (total nPE coreId : UInt32) : List UInt32 :=
  let perCore := (total + nPE - 1) / nPE
  let upperBound := (coreId + 1) * perCore
  let upperBound := if upperBound > total then total else upperBound
  upto (coreId * perCore) upperBound

def clusterPixel (width height y : UInt32) (x : Int) : Pixel where
  border := x = 0 ∨ y = 0 ∨ UInt32.ofInt x = width - 1 ∨ y = height - 1
  idx := toInt (y * width + .ofInt x)
  idxr := ![toInt ((y - 1) * width + .ofInt (x - 1)), toInt (y * width + .ofInt (x - 1)),
    toInt ((y + 1) * width + .ofInt (x - 1)), toInt ((y + 1) * width + .ofInt x),
    toInt ((y + 1) * width + .ofInt (x + 1)), toInt (y * width + .ofInt (x + 1)),
    toInt ((y - 1) * width + .ofInt (x + 1)), toInt ((y - 1) * width + .ofInt x)]
  xMod := (x + xShift).tmod 2
  yMod := ((y + .ofInt yShift) % 2).toNat

section
variable (signed : Bool) (a : KernelInstance)

def clusterDemosaicking (coreId : UInt32) : Stores :=
  (share a.height a.nPE coreId).flatMap fun y => (List.range a.width.toNat).flatMap fun x : Nat =>
    (clusterPixel a.width a.height y x).stores signed a.srcBuffer (a.grayscale ≠ 0)

def clusterInverting (coreId : UInt32) : Stores :=
  (share (a.width * a.height) a.nPE coreId).map fun idx =>
    ((idx.toNat : Int), UInt8.ofInt (255 - promote signed (a.srcBuffer idx.toNat)))

end

/-! ## Unsigned index arithmetic -/

theorem toNat_ofInt (v : Int) : ((UInt32.ofInt v).toNat : Int) = v % 2 ^ 32 := by
  rw [UInt32.ofInt, UInt32.toNat_ofNat']
  omega

theorem ofInt_toNat (u : UInt32) : UInt32.ofInt u.toNat = u := by
  apply UInt32.toNat_inj.mp
  have hmod := toNat_ofInt u.toNat
  have hlt := u.toNat_lt
  omega

theorem toInt_ofInt {v : Int} (h : -2 ^ 31 ≤ v) (h' : v < 2 ^ 31) : toInt (UInt32.ofInt v) = v := by
  have hint : (UInt32.ofInt v).toInt32 = Int32.ofInt v := by
    apply Int32.toBitVec_inj.mp
    apply BitVec.eq_of_toNat_eq
    have hmod := toNat_ofInt v
    rw [UInt32.toBitVec_toInt32, UInt32.toNat_toBitVec, Int32.toBitVec_ofInt, BitVec.toNat_ofInt]
    omega
  rw [toInt, hint, Int32.toInt_ofInt_of_le h h']

theorem eq_sub_one_iff {u v : UInt32} (h : 0 < u.toNat) :
    v = u - 1 ↔ (v.toNat : Int) = u.toNat - 1 := by
  have hone : (1 : UInt32) ≤ u := UInt32.le_iff_toNat_le.mpr h
  rw [← UInt32.toNat_inj, UInt32.toNat_sub_of_le _ _ hone]
  change v.toNat = u.toNat - 1 ↔ _
  omega

section
variable {width height y : UInt32} {x : Nat} (hsize : width.toNat * height.toNat < 2 ^ 30)
  (hx : x < width.toNat) (hy : y.toNat < height.toNat)
include hsize hx hy

/-- The index of a neighbour, which for a border pixel may wrap below zero and
comes back in the conversion to `int`. -/
theorem toInt_index (dy dx : Int) (hdy : -1 ≤ dy ∧ dy ≤ 1) (hdx : -1 ≤ dx ∧ dx ≤ 1) :
    toInt ((y + .ofInt dy) * width + .ofInt (x + dx)) =
      (y.toNat + dy) * width.toNat + (x + dx) := by
  have hu : (y + .ofInt dy) * width + .ofInt (x + dx) =
      UInt32.ofInt ((y.toNat + dy) * width.toNat + (x + dx)) := by
    simp only [UInt32.ofInt_add, UInt32.ofInt_mul, ofInt_toNat]
  have hrow : (y.toNat + 1) * width.toNat ≤ width.toNat * height.toNat := by
    rw [Nat.mul_comm width.toNat]
    exact Nat.mul_le_mul_right _ hy
  have hw : width.toNat ≤ width.toNat * height.toNat := Nat.le_mul_of_pos_right _ (by omega)
  have hlow : -width.toNat ≤ dy * (width.toNat : Int) := by nlinarith [hdy.1]
  have hhigh : dy * (width.toNat : Int) ≤ width.toNat := by nlinarith [hdy.2]
  have hpos : (0 : Int) ≤ y.toNat * width.toNat := by positivity
  zify at hrow hsize hw
  rw [hu, add_mul, toInt_ofInt]
  · linarith
  · linarith [hdx.2]

theorem clusterPixel_border :
    (clusterPixel width height y x).border =
      (pixel width.toNat height.toNat y.toNat x).border := by
  have hw : width.toNat ≤ width.toNat * height.toNat := Nat.le_mul_of_pos_right _ (by omega)
  have hxn : (UInt32.ofInt x).toNat = x := by
    have hmod := toNat_ofInt x
    omega
  have hlast := eq_sub_one_iff (v := UInt32.ofInt x) (Nat.zero_lt_of_lt hx)
  rw [hxn] at hlast
  have hzero : y = 0 ↔ (y.toNat : Int) = 0 := by
    rw [← UInt32.toNat_inj]
    exact Int.natCast_eq_zero.symm
  apply decide_eq_decide.mpr
  rw [hzero, hlast, eq_sub_one_iff (Nat.zero_lt_of_lt hy)]

/-- **Both loops work on the same pixels.** -/
theorem clusterPixel_eq :
    clusterPixel width height y x = pixel width.toNat height.toNat y.toNat x := by
  have hborder := clusterPixel_border hsize hx hy
  have hyMod : (((y + .ofInt yShift) % 2).toNat : Int) = (y.toNat + yShift).tmod 2 := by
    change (((y + 0) % 2).toNat : Int) = ((y.toNat : Int) + 0).tmod 2
    rw [UInt32.add_zero, Int.add_zero, UInt32.toNat_mod,
      Int.tmod_eq_emod_of_nonneg (Int.natCast_nonneg _)]
    rfl
  have hidx := toInt_index hsize hx hy
  have h := hidx 0 0 (by decide) (by decide)
  have h0 := hidx (-1) (-1) (by decide) (by decide)
  have h1 := hidx 0 (-1) (by decide) (by decide)
  have h2 := hidx 1 (-1) (by decide) (by decide)
  have h3 := hidx 1 0 (by decide) (by decide)
  have h4 := hidx 1 1 (by decide) (by decide)
  have h5 := hidx 0 1 (by decide) (by decide)
  have h6 := hidx (-1) 1 (by decide) (by decide)
  have h7 := hidx (-1) 0 (by decide) (by decide)
  have hzero : UInt32.ofInt 0 = 0 := rfl
  simp only [UInt32.ofInt_neg_one, hzero, UInt32.ofInt_one, UInt32.add_zero,
    ← UInt32.sub_eq_add_neg, ← Int.sub_eq_add_neg, Int.add_zero] at h h0 h1 h2 h3 h4 h5 h6 h7
  simp only [clusterPixel, pixel, Pixel.mk.injEq, h, h0, h1, h2, h3, h4, h5, h6, h7]
  exact ⟨hborder, trivial, trivial, trivial, hyMod⟩

end

/-! ## What the cores do together -/

/-- The cores do what the serial kernel does, on an output of `size` positions. -/
structure Agrees (serial : Stores) (core : UInt32 → Stores) (nPE : UInt32) (size : Nat) : Prop where
  /-- Whatever the order of the cores and the output buffer before. -/
  same : ∀ order : List UInt32, order.Perm (upto 0 nPE) → ∀ output : Int → UInt8,
    store output (order.flatMap core) = store output serial
  once : ∀ p : Nat, p < size → ∃! coreId, coreId < nPE ∧ (p : Int) ∈ (core coreId).map Prod.fst

/-- Positions of the output buffer that a pixel has. -/
def channels (grayscale : Bool) : Nat := if grayscale then 1 else 3

def DemosaickingAgrees (signed : Bool) (a : KernelInstance) : Prop :=
  Agrees (demosaicking signed a.srcBuffer a.width.toNat a.height.toNat (toInt a.grayscale))
    (clusterDemosaicking signed a) a.nPE
    (a.height.toNat * a.width.toNat * channels (a.grayscale ≠ 0))

def InvertingAgrees (signed : Bool) (a : KernelInstance) : Prop :=
  Agrees (inverting signed a.srcBuffer a.width.toNat a.height.toNat) (clusterInverting signed a)
    a.nPE (a.height.toNat * a.width.toNat)

end AiDeck.Images
