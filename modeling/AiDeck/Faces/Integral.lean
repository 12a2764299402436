import Mathlib
import AiDeck.Lib.Cores
import AiDeck.Lib.Summed
import AiDeck.Faces.Chunk

/-! # The integral images of the face detection

`KerIntegralImageProcess` and `KerSquaredIntegralImageProcess` work on one horizontal
stripe of the image. The cores first sum up the columns, each core its own, on top of
the last line of the stripe before, which `KerBuffer` keeps; after a barrier they keep
the last line of this stripe, and after another one they sum up the lines. -/
namespace AiDeck.Faces

open AiDeck.Lib.Cores AiDeck.Lib.Summed
open AiDeck.Images (upto)

/-- What the cores write to: the stripe of the integral image, and the line kept between stripes. -/
inductive Cell
  | integralImage (i : Nat)
  | kerBuffer (col : Nat)
  deriving DecidableEq

abbrev Memory := Cell → UInt32

abbrev Program := List (Assign Cell UInt32)

/-- `KerProcessImage_ArgT`, less the pointers to the memory the cores write to. -/
structure KerProcessImageArg where
  inImg : Nat → UInt8
  w : UInt32
  h : UInt32

/-! ## The kernels -/

/-- What is summed up: the pixel, or its square. -/
abbrev Summand := UInt8 → UInt32

def pixel : Summand := fun p => p.toUInt32

def squaredPixel : Summand := fun p => p.toUInt32 * p.toUInt32

/-- The loop over `Col` in `KerIntegralImagePrime`. -/
def primeColumn (col : UInt32) : Program := [⟨.kerBuffer col.toNat, fun _ => 0⟩]

section
variable (value : Summand) (a : KerProcessImageArg)

/-- The body of the first loop over `Col`. -/
def sumColumn (col : UInt32) : Program :=
  ⟨.integralImage col.toNat, fun m => value (a.inImg col.toNat) + m (.kerBuffer col.toNat)⟩ ::
  (upto 0 (a.h - 1)).map fun line =>
    ⟨.integralImage (col + (line + 1) * a.w).toNat, fun m =>
      m (.integralImage (col + line * a.w).toNat) + value (a.inImg (col + (line + 1) * a.w).toNat)⟩

/-- The body of the second loop over `Col`. -/
def saveColumn (col : UInt32) : Program :=
  [⟨.kerBuffer col.toNat, fun m => m (.integralImage (col + (a.h - 1) * a.w).toNat)⟩]

/-- The body of the loop over `Line`. -/
def sumLine (line : UInt32) : Program :=
  (upto 0 (a.w - 1)).map fun col =>
    ⟨.integralImage (col + 1 + line * a.w).toNat, fun m =>
      m (.integralImage (col + line * a.w).toNat) + m (.integralImage (col + 1 + line * a.w).toNat)⟩

/-- Every core does its chunk of a loop over `x` rounds. -/
def spread (nCore x : UInt32) (body : UInt32 → Program) (coreId : Fin nCore.toNat) : Program :=
  (chunk nCore x (.ofNat coreId)).flatMap body

/-- `KerIntegralImagePrime` on all cores. -/
def KerIntegralImagePrime (nCore w : UInt32) (m n : Memory) : Prop :=
  Phase (spread nCore w primeColumn) m n

/-- Both kernels on all cores, from barrier to barrier. -/
def Process (nCore : UInt32) (m n : Memory) : Prop :=
  ∃ m' m'', Phase (spread nCore a.w (sumColumn value a)) m m' ∧
    Phase (spread nCore a.w (saveColumn a)) m' m'' ∧ Phase (spread nCore a.h (sumLine a)) m'' n

end

def KerIntegralImageProcess := Process pixel

def KerSquaredIntegralImageProcess := Process squaredPixel

/-! ## Stripes -/

/-- The calls for one image, after the priming: one call for each stripe, in order. Between
two calls the tile in fast memory is written out and replaced, `KerBuffer` stays. The lines
that are written out are collected. -/
inductive Stripes (value : Summand) (nCore w : UInt32) (image : Nat → UInt8) :
    List UInt32 → Nat → Memory → List (Nat → UInt32) → Prop
  | nil {first : Nat} {m : Memory} : Stripes value nCore w image [] first m []
  | cons {h : UInt32} {hs : List UInt32} {first : Nat} {m m' n : Memory}
      {lines : List (Nat → UInt32)}
      (htile : ∀ col, m' (.kerBuffer col) = m (.kerBuffer col))
      (hprocess : Process value ⟨fun i => image (first * w.toNat + i), w, h⟩ nCore m' n)
      (hrest : Stripes value nCore w image hs (first + h.toNat) n lines) :
      Stripes value nCore w image (h :: hs) first m
        ((List.range h.toNat).map (fun line col => n (.integralImage (line * w.toNat + col))) ++ lines)

/-! ## The loops in the naturals -/

theorem upto_map {γ : Type*} {u : UInt32} (hu : 0 < u.toNat) (f : Nat → γ) :
    (upto 0 (u - 1)).map (fun i => f i.toNat) = (List.range (u.toNat - 1)).map f := by
  have hone : (1 : UInt32) ≤ u := UInt32.le_iff_toNat_le.mpr hu
  have hlist := Images.upto_toNat 0 (u - 1)
  rw [UInt32.toNat_sub_of_le _ _ hone, UInt32.toNat_zero, Nat.sub_zero, ← List.range_eq_range']
    at hlist
  have hmap := List.map_map (l := upto 0 (u - 1)) (f := UInt32.toNat) (g := f)
  rw [hlist] at hmap
  exact hmap.symm

/-- An index into an image that fits the address space. -/
theorem index_toNat {col line w : UInt32} {h : Nat} (hfit : 4 * (w.toNat * h) < 2 ^ 32)
    (hcol : col.toNat < w.toNat) (hline : line.toNat < h) :
    (col + line * w).toNat = line.toNat * w.toNat + col.toNat := by
  have hle : line.toNat * w.toNat + w.toNat ≤ w.toNat * h := by
    rw [← Nat.succ_mul, Nat.mul_comm w.toNat]
    exact Nat.mul_le_mul_right _ hline
  rw [UInt32.toNat_add, UInt32.toNat_mul, Nat.mod_eq_of_lt (by omega : line.toNat * w.toNat < 2 ^ 32),
    Nat.mod_eq_of_lt (by omega), Nat.add_comm]

end AiDeck.Faces
