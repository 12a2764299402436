import Mathlib
import AiDeck.Lib.Bytes
import AiDeck.Lib.Copies
import AiDeck.Lib.Dot
import AiDeck.Network.Run

/-! # Filters on two pixels at once

`pulp_nn_matmul_u8_u8_i8` takes two windows, copied to lines of bytes, and gives the output
of all filters on both: four filters at a time, then the filters that are left. -/
namespace AiDeck.Network

open AiDeck.Lib AiDeck.Lib.Cores AiDeck.Lib.Copies

abbrev ByteProgram := List (Assign Nat UInt8)

/-! ## Requantization -/

def int32At (m : Memory) (p : Nat) : Int32 := (Bytes.ofLE32 (Bytes.segment m p 4)).toInt32

def int64At (m : Memory) (p : Nat) : Int64 :=
  ((Bytes.ofLE32 (Bytes.segment m p 4)).toUInt64 +
    (Bytes.ofLE32 (Bytes.segment m (p + 4) 4)).toUInt64 <<< 32).toInt64

/-- `__builtin_pulp_clipu_r(x, 255)`. -/
def clip8 (x : Int32) : UInt8 := .ofNat (min x.toInt.toNat 255)

def pulpNnQuantU8 (phi : Int32) (m : Int16) (d : Int8) : UInt8 :=
  clip8 ((m.toInt32 * phi) >>> d.toInt32)

/-- Only the low 32 bits of `x` are clipped. -/
def pulpNnBnQuantU8 (phi : Int32) (k lambda : Int64) (d : Int8) : UInt8 :=
  let x := (k * phi.toInt64 + lambda) >>> d.toInt64
  clip8 x.toInt32

/-! ## The kernel -/

/-- What the kernels are given of the filters. -/
structure Filters where
  pBias : Option Nat
  pWeight : Nat
  pKappa : Nat
  pLambda : Nat
  outMult : Nat
  outShift : Nat
  chOut : Nat
  flagRelu : Nat
  flagBatchNorm : Nat

section
variable (f : Filters)

/-- What a sum starts from. -/
def Filters.bias (m : Memory) (i : Nat) : Int32 :=
  if let some pBias := f.pBias then int32At m (pBias + 4 * i) else 0

/-- The sum of filter `i` over a line of bytes, all of the lines being as long. -/
def Filters.sum (m : Memory) (pIn numCol i : Nat) : Int32 :=
  Dot.dot (fun q => m (pIn + q)) (fun q => m (f.pWeight + i * numCol + q)) numCol (f.bias m i)

def Filters.quant (m : Memory) (i : Nat) (sum : Int32) : UInt8 :=
  if f.flagBatchNorm ≠ 0 ∧ f.flagRelu ≠ 0 then
    pulpNnBnQuantU8 sum (int64At m (f.pKappa + 8 * i)) (int64At m (f.pLambda + 8 * i))
      (.ofNat f.outShift)
  else if f.flagRelu = 1 then pulpNnQuantU8 sum (.ofNat f.outMult) (.ofNat f.outShift)
  else clip8 (sum >>> .ofNat f.outShift)

/-- The output of filter `i` is stored. -/
def Filters.store (pIn numCol pOut i : Nat) : Assign Nat UInt8 where
  cell := pOut + i
  value m := f.quant m i (f.sum m pIn numCol i)

/-- `pulp_nn_matmul_u8_u8_i8`; the length of a line is a `uint16_t`. -/
def pulpNnMatmulU8U8I8 (pIn pOut pOut2 numColIm2Col : Nat) : ByteProgram :=
  let numCol := numColIm2Col % 2 ^ 16
  let store := f.store pIn numCol pOut
  let store2 := f.store (pIn + numCol) numCol pOut2
  (List.range (f.chOut / 4)).flatMap (fun i =>
    if f.flagBatchNorm ≠ 0 ∧ f.flagRelu ≠ 0 then
      (List.range 4).flatMap fun j => [store (4 * i + j), store2 (4 * i + j)]
    else
      (List.range 4).map (fun j => store (4 * i + j)) ++
        (List.range 4).map fun j => store2 (4 * i + j)) ++
  (List.range (f.chOut % 4)).flatMap fun j =>
    [store (4 * (f.chOut / 4) + j), store2 (4 * (f.chOut / 4) + j)]

end

variable {f : Filters} {pIn pOut pOut2 numCol : Nat}

/-- **Each filter is done once on each line**, as far as its stores go. -/
theorem mem_pulpNnMatmul (hcol : numCol < 2 ^ 16) {s : Assign Nat UInt8} :
    s ∈ pulpNnMatmulU8U8I8 f pIn pOut pOut2 numCol ↔
      ∃ i < f.chOut, s = f.store pIn numCol pOut i ∨ s = f.store (pIn + numCol) numCol pOut2 i := by
  have hdiv := Nat.div_add_mod f.chOut 4
  have hmod := Nat.mod_lt f.chOut (show 0 < 4 by omega)
  unfold pulpNnMatmulU8U8I8
  simp only [Nat.mod_eq_of_lt hcol, List.mem_append, List.mem_flatMap, List.mem_range]
  constructor
  · rintro (⟨i, hi, hs⟩ | ⟨j, hj, hs⟩)
    · have hblock : ∃ j < 4, s = f.store pIn numCol pOut (4 * i + j) ∨
          s = f.store (pIn + numCol) numCol pOut2 (4 * i + j) := by
        split at hs
        · simpa using hs
        · rcases List.mem_append.mp hs with hs | hs <;> obtain ⟨j, hj, rfl⟩ := List.mem_map.mp hs
          · exact ⟨j, List.mem_range.mp hj, Or.inl rfl⟩
          · exact ⟨j, List.mem_range.mp hj, Or.inr rfl⟩
      obtain ⟨j, hj, hs⟩ := hblock
      exact ⟨_, by omega, hs⟩
    · exact ⟨4 * (f.chOut / 4) + j, by omega, by simpa using hs⟩
  · intro ⟨i, hi, hs⟩
    rcases Nat.lt_or_ge i (4 * (f.chOut / 4)) with hlt | hge
    · refine Or.inl ⟨i / 4, by omega, ?_⟩
      have hrange : i % 4 ∈ List.range 4 := List.mem_range.mpr (Nat.mod_lt i (by omega))
      have hplace : 4 * (i / 4) + i % 4 = i := Nat.div_add_mod i 4
      split
      · refine List.mem_flatMap.mpr ⟨i % 4, hrange, ?_⟩
        rw [hplace]
        simpa using hs
      · rcases hs with hs | hs
        · exact List.mem_append_left _ (List.mem_map.mpr ⟨i % 4, hrange, by rw [hplace, hs]⟩)
        · exact List.mem_append_right _ (List.mem_map.mpr ⟨i % 4, hrange, by rw [hplace, hs]⟩)
    · refine Or.inr ⟨i - 4 * (f.chOut / 4), by omega, ?_⟩
      rw [Nat.add_sub_cancel' hge]
      simpa using hs

end AiDeck.Network
