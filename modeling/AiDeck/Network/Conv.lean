import Mathlib
import AiDeck.Lib.Convolution
import AiDeck.Network.Matmul
import AiDeck.Network.Shares

/-! # Convolution

`pulp_nn_conv_u8_u8_i8` copies the window of each pixel to a line of bytes, two of them for
one call of the matrix product, and a last one alone where the columns are odd. Where the
lines of the output are no multiple of the cores, two cores share a line. -/
namespace AiDeck.Network

open AiDeck.Lib AiDeck.Lib.Cores AiDeck.Lib.Copies AiDeck.Lib.Convolution

/-! ## The kernel -/

def pulpZeroMem (pBuffer size : Nat) : ByteProgram := combine (fun _ _ => 0) pBuffer pBuffer size

def pulpNnIm2ColU8ToU8 (pInput pOutput blockSize : Nat) : ByteProgram :=
  combine (fun _ b => b) pOutput pInput blockSize

structure ConvArgs extends Filters where
  pIn : Nat
  pIm2ColBuffer : Nat
  pOut : Nat
  dimInX : Nat
  dimInY : Nat
  chIn : Nat
  dimOutX : Nat
  dimOutY : Nat
  dimKernelX : Nat
  dimKernelY : Nat
  paddingYTop : Nat
  paddingYBottom : Nat
  paddingXLeft : Nat
  paddingXRight : Nat
  strideX : Nat
  strideY : Nat

section
variable (a : ConvArgs)

/-- The bytes of a window. -/
def ConvArgs.numCol : Nat := a.dimKernelY * a.dimKernelX * a.chIn

/-- Where a window starts. -/
def ConvArgs.windowY (y : Nat) : Int := y * a.strideY - a.paddingYTop

def ConvArgs.windowX (x : Nat) : Int := x * a.strideX - a.paddingXLeft

def ConvArgs.pixelIn (iKerY iKerX : Int) : Nat :=
  (a.pIn + (iKerY * a.dimInX + iKerX) * a.chIn).toNat

def ConvArgs.pixelOut (y x : Nat) : Nat := a.pOut + (y * a.dimOutX + x) * a.chOut

/-- The loops that copy a window pixel by pixel; next to the left and the right padding the
lines are not checked. -/
def ConvArgs.checkedWindow (checkY : Bool) (y x pIm2Col : Nat) : ByteProgram :=
  (List.range a.dimKernelY).flatMap fun (i : Nat) =>
    (List.range a.dimKernelX).flatMap fun (j : Nat) =>
      let iKerY := a.windowY y + i
      let iKerX := a.windowX x + j
      let dst := pIm2Col + (i * a.dimKernelX + j) * a.chIn
      if checkY ∧ (iKerY < 0 ∨ iKerY ≥ a.dimInY) ∨ iKerX < 0 ∨ iKerX ≥ a.dimInX then
        pulpZeroMem dst a.chIn
      else pulpNnIm2ColU8ToU8 (a.pixelIn iKerY iKerX) dst a.chIn

/-- The loop that copies it line by line. -/
def ConvArgs.plainWindow (y x pIm2Col : Nat) : ByteProgram :=
  (List.range a.dimKernelY).flatMap fun (i : Nat) =>
    pulpNnIm2ColU8ToU8 (a.pixelIn (a.windowY y + i) (a.windowX x))
      (pIm2Col + i * (a.chIn * a.dimKernelX)) (a.chIn * a.dimKernelX)

def ConvArgs.im2Col (y x pIm2Col : Nat) : ByteProgram :=
  if y < a.paddingYTop then a.checkedWindow true y x pIm2Col
  else if (y : Int) < a.dimOutY - a.paddingYBottom then
    if x < a.paddingXLeft then a.checkedWindow false y x pIm2Col
    else if (x : Int) < a.dimOutX - a.paddingXRight then a.plainWindow y x pIm2Col
    else a.checkedWindow false y x pIm2Col
  else a.checkedWindow true y x pIm2Col

/-- What a core keeps from pixel to pixel. -/
structure ConvState where
  pIm2Col : Nat
  pOutBuffer : Nat
  pBias : Option Nat

/-- A round of the loop over the columns: with the second window the product is called. -/
def ConvArgs.pixel (pIm2ColBase y : Nat) (s : ConvState) (x : Nat) : ByteProgram × ConvState :=
  let copy := a.im2Col y x s.pIm2Col
  if s.pIm2Col + a.numCol = pIm2ColBase + 2 * a.numCol then
    (copy ++ pulpNnMatmulU8U8I8 { a.toFilters with pBias := s.pBias } pIm2ColBase s.pOutBuffer
      (s.pOutBuffer + a.chOut) a.numCol,
      { s with pIm2Col := pIm2ColBase, pOutBuffer := s.pOutBuffer + 2 * a.chOut })
  else (copy, { s with pIm2Col := s.pIm2Col + a.numCol })

/-- A window that is left alone; here `pBias` is not put back. -/
def ConvArgs.leftover (pIm2ColBase : Nat) (s : ConvState) : ByteProgram × ConvState :=
  if s.pIm2Col ≠ pIm2ColBase then
    ((List.range a.chOut).map fun i =>
      Filters.store { a.toFilters with pBias := s.pBias } pIm2ColBase a.numCol s.pOutBuffer i,
      { s with pOutBuffer := s.pOutBuffer + a.chOut, pBias := s.pBias.map (· + 4 * a.chOut) })
  else ([], s)

/-- What a core is to do of each of its lines. -/
structure ConvShare where
  chunk : Nat
  coreIdR : Nat
  dimOutXR : Nat
  sectionR : Nat
  extraChunk : Nat

def ConvArgs.share (numCores coreId : Nat) : ConvShare :=
  if a.dimOutY &&& (numCores - 1) ≠ 0 ∧ a.dimOutX > 1 then
    { chunk := coreChunk (numCores >>> 1).log2 (numCores >>> 1) a.dimOutY
      coreIdR := coreId >>> 1
      dimOutXR := a.dimOutX >>> 1
      sectionR := coreId &&& 1
      extraChunk := 1 }
  else
    { chunk := coreChunk numCores.log2 numCores a.dimOutY
      coreIdR := coreId
      dimOutXR := a.dimOutX
      sectionR := 0
      extraChunk := 0 }

/-- From `section * dim_out_x_r` to `dim_out_x_r + section * (dim_out_x_r + flag_dim_out_x_odd)`. -/
def ConvArgs.columns (s : ConvShare) : List Nat :=
  let start := s.sectionR * s.dimOutXR
  let stop := s.dimOutXR + s.sectionR * (s.dimOutXR + a.dimOutX % 2)
  List.range' start (stop - start)

/-- Some columns of a line. -/
def ConvArgs.pixels (pIm2ColBase y : Nat) (s : ConvState) (xs : List Nat) :
    ByteProgram × ConvState :=
  let pairs := steps (a.pixel pIm2ColBase y) s xs
  let last := a.leftover pIm2ColBase pairs.2
  (pairs.1 ++ last.1, last.2)

/-- A line; the columns of the other section are skipped in the output. -/
def ConvArgs.line (share : ConvShare) (pIm2ColBase : Nat) (s : ConvState) (y : Nat) :
    ByteProgram × ConvState :=
  let pixels := a.pixels pIm2ColBase y s (a.columns share)
  (pixels.1,
    { pixels.2 with
      pIm2Col := pIm2ColBase
      pOutBuffer := pixels.2.pOutBuffer + share.extraChunk *
        ((share.dimOutXR + (1 - share.sectionR) * (a.dimOutX % 2)) * a.chOut) })

def ConvArgs.core (numCores coreId : Nat) : ByteProgram :=
  let share := a.share numCores coreId
  let pIm2ColBase := a.pIm2ColBuffer + 2 * coreId * a.numCol
  let startPixel := min (share.chunk * share.coreIdR) a.dimOutY
  (steps (a.line share pIm2ColBase)
    { pIm2Col := pIm2ColBase
      pOutBuffer := a.pOut + startPixel * a.chOut * a.dimOutX +
        share.sectionR * a.chOut * share.dimOutXR
      pBias := a.pBias }
    (lines share.chunk a.dimOutY share.coreIdR)).1

/-- `pulp_nn_conv_u8_u8_i8`. -/
def pulpNnConvU8U8I8 (numCores : Nat) : Memory → Memory → Prop :=
  Phase fun core : Fin numCores => a.core numCores core

end

/-! ## What it computes -/

section
variable (a : ConvArgs)

/-- The input in a memory. -/
def ConvArgs.image (m : Memory) : Feature UInt8 := fun y x c =>
  m (a.pIn + (y * a.dimInX + x) * a.chIn + c)

def ConvArgs.padded (m : Memory) : Int → Int → Nat → UInt8 :=
  Convolution.padded a.dimInY a.dimInX (a.image m)

/-- The weights of filter `o`. -/
def ConvArgs.weight (m : Memory) (o : Nat) : Feature UInt8 := fun i j c =>
  m (a.pWeight + o * a.numCol + ((i * a.dimKernelX + j) * a.chIn + c))

/-- The sum of filter `o` at a pixel, and the output. -/
def ConvArgs.windowSum (m : Memory) (y x o : Nat) : Int :=
  convolve a.dimKernelY a.dimKernelX a.chIn (a.padded m) (a.weight m o) (a.windowY y) (a.windowX x)

def ConvArgs.result (m : Memory) (y x o : Nat) : UInt8 :=
  a.quant m o (.ofInt (a.windowSum m y x o))

def ConvArgs.inputCells : Set Nat := cells a.pIn (a.dimInY * a.dimInX * a.chIn)

def ConvArgs.outputCells : Set Nat := cells a.pOut (a.dimOutY * a.dimOutX * a.chOut)

/-- The weights and the factors of the filters, if these are used. -/
def Filters.cells (f : Filters) (numCol : Nat) : Set Nat :=
  Copies.cells f.pWeight (f.chOut * numCol) ∪
    (Copies.cells f.pKappa (8 * f.chOut) ∪ Copies.cells f.pLambda (8 * f.chOut))

def ConvArgs.readCells : Set Nat := a.inputCells ∪ a.cells a.numCol

/-- The windows of all cores. -/
def ConvArgs.workCells (numCores : Nat) : Set Nat :=
  Copies.cells a.pIm2ColBuffer (2 * numCores * a.numCol)

/-- What the kernel relies on: windows away from the padding lie in the image, and what is read,
the output and the windows of the cores are apart. -/
structure ConvArgs.Proper (numCores : Nat) : Prop where
  bias : a.pBias = none
  numCol_pos : 0 < a.numCol
  numCol_lt : a.numCol < 2 ^ 16
  rows : ∀ y, a.paddingYTop ≤ y → y + a.paddingYBottom < a.dimOutY → ∀ i < a.dimKernelY,
    0 ≤ a.windowY y + i ∧ a.windowY y + i < a.dimInY
  columns : ∀ x, a.paddingXLeft ≤ x → x + a.paddingXRight < a.dimOutX → ∀ j < a.dimKernelX,
    0 ≤ a.windowX x + j ∧ a.windowX x + j < a.dimInX
  output_read : Disjoint a.outputCells a.readCells
  work_read : Disjoint (a.workCells numCores) a.readCells
  output_work : Disjoint a.outputCells (a.workCells numCores)

end

/-! ## Copying a window -/

section
variable {a : ConvArgs} {y x p : Nat} {m : Memory} {l : ByteProgram}

theorem pixelIn_eq {u v c : Nat} {iKerY iKerX : Int} (hu : iKerY = u) (hv : iKerX = v) :
    a.pixelIn iKerY iKerX + c = a.pIn + (u * a.dimInX + v) * a.chIn + c := by
  subst hu hv
  unfold ConvArgs.pixelIn
  congr 1

theorem image_mem {u v c : Nat} (hu : u < a.dimInY) (hv : v < a.dimInX) (hc : c < a.chIn) :
    a.pIn + (u * a.dimInX + v) * a.chIn + c ∈ a.inputCells := by
  have hline : (u + 1) * a.dimInX * a.chIn ≤ a.dimInY * a.dimInX * a.chIn :=
    Nat.mul_le_mul_right _ (Nat.mul_le_mul_right _ hu)
  have hpixel : (v + 1) * a.chIn ≤ a.dimInX * a.chIn := Nat.mul_le_mul_right _ hv
  rw [ConvArgs.inputCells, mem_cells]
  simp only [Nat.add_mul, Nat.one_mul] at *
  omega

theorem padded_eqOn {m' : Memory} (heq : Set.EqOn m m' a.inputCells) (u v : Int) {c : Nat}
    (hc : c < a.chIn) : a.padded m u v c = a.padded m' u v c := by
  refine padded_congr (fun i hi j hj => ?_) u v
  exact heq (image_mem hi hj hc)

/-- A program that copies the window of a pixel to `p`. -/
structure Copied (a : ConvArgs) (y x p : Nat) (l : ByteProgram) : Prop where
  place : ∀ s ∈ l, ∃ i < a.dimKernelY, ∃ j < a.dimKernelX, ∃ c < a.chIn,
    s.cell = p + ((i * a.dimKernelX + j) * a.chIn + c) ∧
      ∀ m, s.value m = a.padded m (a.windowY y + i) (a.windowX x + j) c
  all : ∀ i < a.dimKernelY, ∀ j < a.dimKernelX, ∀ c < a.chIn,
    ∃ s ∈ l, s.cell = p + ((i * a.dimKernelX + j) * a.chIn + c)

theorem checkedWindow_copied {checkY : Bool} (hY : checkY = false → ∀ i < a.dimKernelY,
    0 ≤ a.windowY y + i ∧ a.windowY y + i < a.dimInY) :
    Copied a y x p (a.checkedWindow checkY y x p) := by
  constructor
  · intro s hs
    obtain ⟨i, hi, hs⟩ := List.mem_flatMap.mp hs
    obtain ⟨j, hj, hs⟩ := List.mem_flatMap.mp hs
    have hi := List.mem_range.mp hi
    have hj := List.mem_range.mp hj
    refine ⟨i, hi, j, hj, ?_⟩
    dsimp only at hs
    split at hs
    next hout =>
      obtain ⟨c, hc, rfl⟩ := List.mem_map.mp hs
      refine ⟨c, List.mem_range.mp hc, Nat.add_assoc _ _ _, fun m => ?_⟩
      refine (if_neg fun hin => ?_).symm
      omega
    next hin =>
      obtain ⟨c, hc, rfl⟩ := List.mem_map.mp hs
      refine ⟨c, List.mem_range.mp hc, Nat.add_assoc _ _ _, fun m => ?_⟩
      have hrow : 0 ≤ a.windowY y + i ∧ a.windowY y + i < a.dimInY := by
        cases checkY with
        | false => exact hY rfl i hi
        | true =>
          simp only [true_and] at hin
          omega
      rw [ConvArgs.padded, padded_of_mem hrow (by omega)]
      exact congrArg m (pixelIn_eq (Int.toNat_of_nonneg hrow.1).symm
        (Int.toNat_of_nonneg (by omega)).symm)
  · intro i hi j hj c hc
    have hblock : ∀ (g : UInt8 → UInt8 → UInt8) (src : Nat),
        ∃ s ∈ combine g (p + (i * a.dimKernelX + j) * a.chIn) src a.chIn,
          s.cell = p + ((i * a.dimKernelX + j) * a.chIn + c) := fun g src =>
      ⟨_, List.mem_map.mpr ⟨c, List.mem_range.mpr hc, rfl⟩, Nat.add_assoc _ _ _⟩
    unfold ConvArgs.checkedWindow
    simp only [List.mem_flatMap]
    have hplace : ∃ s ∈ (if checkY ∧ (a.windowY y + i < 0 ∨ a.windowY y + i ≥ a.dimInY) ∨
        a.windowX x + j < 0 ∨ a.windowX x + j ≥ a.dimInX then
        pulpZeroMem (p + (i * a.dimKernelX + j) * a.chIn) a.chIn
      else pulpNnIm2ColU8ToU8 (a.pixelIn (a.windowY y + i) (a.windowX x + j))
        (p + (i * a.dimKernelX + j) * a.chIn) a.chIn),
        s.cell = p + ((i * a.dimKernelX + j) * a.chIn + c) := by
      split
      · exact hblock _ _
      · exact hblock _ _
    obtain ⟨s, hs, hcell⟩ := hplace
    exact ⟨s, ⟨i, List.mem_range.mpr hi, j, List.mem_range.mpr hj, hs⟩, hcell⟩

theorem plainWindow_copied
    (hY : ∀ i < a.dimKernelY, 0 ≤ a.windowY y + i ∧ a.windowY y + i < a.dimInY)
    (hX : ∀ j < a.dimKernelX, 0 ≤ a.windowX x + j ∧ a.windowX x + j < a.dimInX) :
    Copied a y x p (a.plainWindow y x p) := by
  constructor
  · intro s hs
    obtain ⟨i, hi, hs⟩ := List.mem_flatMap.mp hs
    obtain ⟨t, ht, rfl⟩ := List.mem_map.mp hs
    have hi := List.mem_range.mp hi
    have ht := List.mem_range.mp ht
    have hch : 0 < a.chIn := Nat.pos_of_mul_pos_right (Nat.zero_lt_of_lt ht)
    have hj : t / a.chIn < a.dimKernelX := Nat.div_lt_of_lt_mul ht
    have hsplit := Nat.div_add_mod t a.chIn
    refine ⟨i, hi, t / a.chIn, hj, t % a.chIn, Nat.mod_lt t hch, ?_, fun m => ?_⟩
    · change p + i * (a.chIn * a.dimKernelX) + t = _
      conv_lhs => rw [← hsplit]
      ring
    · have hrow := hY i hi
      have hcolumn := hX _ hj
      have hfirst := (hX 0 (Nat.zero_lt_of_lt hj)).1
      rw [Nat.cast_zero, add_zero] at hfirst
      rw [ConvArgs.padded, padded_of_mem hrow hcolumn]
      change m (a.pixelIn (a.windowY y + i) (a.windowX x) + t) = m _
      rw [pixelIn_eq (Int.toNat_of_nonneg hrow.1).symm (Int.toNat_of_nonneg hfirst).symm,
        Int.toNat_add hfirst (Int.natCast_nonneg _), Int.toNat_natCast]
      congr 1
      conv_lhs => rw [← hsplit]
      ring
  · intro i hi j hj c hc
    have hplace : j * a.chIn + c < a.chIn * a.dimKernelX := by
      have : (j + 1) * a.chIn ≤ a.dimKernelX * a.chIn := Nat.mul_le_mul_right _ hj
      rw [Nat.add_one_mul, Nat.mul_comm a.dimKernelX] at this
      omega
    refine ⟨_, List.mem_flatMap.mpr ⟨i, List.mem_range.mpr hi,
      List.mem_map.mpr ⟨j * a.chIn + c, List.mem_range.mpr hplace, rfl⟩⟩, ?_⟩
    change p + i * (a.chIn * a.dimKernelX) + (j * a.chIn + c) = _
    ring

variable {numCores : Nat}

/-- **Each way of copying a window copies it**, where the kernel takes it. -/
theorem ConvArgs.Proper.im2Col_copied (h : a.Proper numCores) (y x p : Nat) :
    Copied a y x p (a.im2Col y x p) := by
  unfold im2Col
  split
  next => exact checkedWindow_copied (by simp)
  next htop =>
    split
    next hbottom =>
      have hrows := h.rows y (by omega) (by omega)
      split
      next => exact checkedWindow_copied fun _ => hrows
      next hleft =>
        split
        next hright => exact plainWindow_copied hrows (h.columns x (by omega) (by omega))
        next => exact checkedWindow_copied fun _ => hrows
    next => exact checkedWindow_copied (by simp)

theorem place_lt {i j c : Nat} (hi : i < a.dimKernelY) (hj : j < a.dimKernelX) (hc : c < a.chIn) :
    (i * a.dimKernelX + j) * a.chIn + c < a.numCol := by
  have hline : (i + 1) * a.dimKernelX * a.chIn ≤ a.numCol :=
    Nat.mul_le_mul_right _ (Nat.mul_le_mul_right _ hi)
  have hpixel : (j + 1) * a.chIn ≤ a.dimKernelX * a.chIn := Nat.mul_le_mul_right _ hj
  simp only [Nat.add_mul, Nat.one_mul] at *
  omega

theorem Copied.within (h : Copied a y x p l) :
    ∀ s ∈ l, Within (cells p a.numCol) a.inputCells s := by
  intro s hs
  obtain ⟨i, hi, j, hj, c, hc, hcell, hvalue⟩ := h.place s hs
  refine ⟨?_, fun m m' heq => ?_⟩
  · rw [hcell]
    exact add_mem_cells (place_lt hi hj hc)
  · rw [hvalue, hvalue, padded_eqOn heq _ _ hc]

/-- **The window as a line of bytes.** -/
theorem Copied.run (h : Copied a y x p l) (hp : Disjoint (cells p a.numCol) a.inputCells)
    {q : Nat} (hq : q < a.numCol) : run l m (p + q) =
      Convolution.line a.dimKernelX a.chIn (a.padded m) (a.windowY y) (a.windowX x) q := by
  have hch : 0 < a.chIn := Nat.pos_of_mul_pos_left (Nat.zero_lt_of_lt hq)
  have hquot : q / a.chIn < a.dimKernelY * a.dimKernelX :=
    Nat.div_lt_of_lt_mul (hq.trans_eq (Nat.mul_comm _ _))
  have hkernel : 0 < a.dimKernelX := Nat.pos_of_mul_pos_left (Nat.zero_lt_of_lt hquot)
  have hi : q / a.chIn / a.dimKernelX < a.dimKernelY :=
    Nat.div_lt_of_lt_mul (hquot.trans_eq (Nat.mul_comm _ _))
  have hplace : (q / a.chIn / a.dimKernelX * a.dimKernelX + q / a.chIn % a.dimKernelX) * a.chIn +
      q % a.chIn = q := by
    rw [Nat.div_add_mod', Nat.div_add_mod']
  obtain ⟨s, hs, hcell⟩ := h.all _ hi _ (Nat.mod_lt _ hkernel) _ (Nat.mod_lt q hch)
  rw [hplace] at hcell
  have hrun := run_of_within (m := m) (g := fun z => Convolution.line a.dimKernelX a.chIn (a.padded m)
    (a.windowY y) (a.windowX x) (z - p)) h.within hp (fun s hs => ?_) ⟨s, hs, hcell⟩
  · rw [hrun, Nat.add_sub_cancel_left]
  · obtain ⟨i, hi, j, hj, c, hc, hcell, hvalue⟩ := h.place s hs
    rw [hvalue, hcell, Nat.add_sub_cancel_left, line_eq hj hc]

end

/-! ## The outputs of a window -/

section
variable {a : ConvArgs} {f : Filters} {numCores y x i o base out n : Nat} {m m' : Memory}

theorem int64At_congr {p p' : Nat} (h : ∀ q < 8, m (p + q) = m' (p' + q)) :
    int64At m p = int64At m' p' := by
  have hword : ∀ r, r + 4 ≤ 8 → Bytes.segment m (p + r) 4 = Bytes.segment m' (p' + r) 4 :=
    fun r hr => Bytes.segment_congr fun j hj => by
      rw [Nat.add_assoc, Nat.add_assoc]
      exact h _ (by omega)
  have hlow := hword 0 (by omega)
  have hhigh := hword 4 (by omega)
  rw [Nat.add_zero, Nat.add_zero] at hlow
  rw [int64At, int64At, hlow, hhigh]

theorem weight_mem {q : Nat} (hi : i < f.chOut) (hq : q < n) :
    f.pWeight + i * n + q ∈ f.cells n := by
  have : (i + 1) * n ≤ f.chOut * n := Nat.mul_le_mul_right _ hi
  rw [Nat.add_one_mul] at this
  exact Or.inl ⟨by omega, by omega⟩

theorem quant_congr (h : Set.EqOn m m' (f.cells n)) (hi : i < f.chOut) (sum : Int32) :
    f.quant m i sum = f.quant m' i sum := by
  have hfactor : ∀ p, cells p (8 * f.chOut) ⊆ f.cells n → int64At m (p + 8 * i) = int64At m' (p + 8 * i) :=
    fun p hp => int64At_congr fun q hq => h (hp ⟨by omega, by omega⟩)
  unfold Filters.quant
  rw [hfactor f.pKappa fun z hz => Or.inr (Or.inl hz),
    hfactor f.pLambda fun z hz => Or.inr (Or.inr hz)]

/-- A store reads a line of bytes and what belongs to its filter. -/
theorem store_within {pIn : Nat} (hbias : f.pBias = none) (hi : i < f.chOut) :
    Within (cells out f.chOut) (cells pIn n ∪ f.cells n) (f.store pIn n out i) := by
  refine ⟨add_mem_cells hi, fun m m' heq => ?_⟩
  have hfilter : Set.EqOn m m' (f.cells n) := heq.mono Set.subset_union_right
  have hsum : f.sum m pIn n i = f.sum m' pIn n i := by
    unfold Filters.sum Filters.bias
    rw [hbias]
    exact Dot.dot_congr (fun q hq => heq (Or.inl (add_mem_cells hq)))
      (fun q hq => hfilter (weight_mem hi hq)) 0
  change f.quant m i (f.sum m pIn n i) = f.quant m' i (f.sum m' pIn n i)
  rw [hsum, quant_congr hfilter hi]

theorem windowSum_eq (a : ConvArgs) (m : Memory) (y x o : Nat) : a.windowSum m y x o =
    Dot.total (Convolution.line a.dimKernelX a.chIn (a.padded m) (a.windowY y) (a.windowX x))
      (fun q => m (a.pWeight + o * a.numCol + q)) a.numCol := by
  rw [ConvArgs.numCol, total_line]
  rfl

/-- From the window of a pixel a store gives its output. -/
theorem store_value {pIn : Nat} (hbias : a.pBias = none) (hwindow : ∀ q < a.numCol, m (pIn + q) =
      Convolution.line a.dimKernelX a.chIn (a.padded m') (a.windowY y) (a.windowX x) q)
    (hread : Set.EqOn m m' a.readCells) (ho : o < a.chOut) :
    (a.store pIn a.numCol out o).value m = a.result m' y x o := by
  have hfilter : Set.EqOn m m' (a.cells a.numCol) := hread.mono Set.subset_union_right
  have hsum : a.sum m pIn a.numCol o = .ofInt (a.windowSum m' y x o) := by
    unfold Filters.sum Filters.bias
    rw [hbias, Dot.dot_congr hwindow fun q hq => hfilter (weight_mem ho hq), Dot.dot_eq,
      windowSum_eq]
    exact Int32.zero_add _
  change a.quant m o (a.sum m pIn a.numCol o) = _
  rw [hsum, quant_congr hfilter ho, ConvArgs.result]

theorem result_congr (heq : Set.EqOn m m' a.readCells) (ho : o < a.chOut) :
    a.result m y x o = a.result m' y x o := by
  have hfilter : Set.EqOn m m' (a.cells a.numCol) := heq.mono Set.subset_union_right
  have hsum : a.windowSum m y x o = a.windowSum m' y x o := by
    refine convolve_congr (fun i _ j _ c hc => ?_) fun i hi j hj c hc => ?_
    · exact padded_eqOn (heq.mono Set.subset_union_left) _ _ hc
    · exact hfilter (weight_mem ho (place_lt hi hj hc))
  rw [ConvArgs.result, ConvArgs.result, hsum, quant_congr hfilter ho]

variable (h : a.Proper numCores)
include h

/-- The sum fits in its register. -/
theorem ConvArgs.Proper.windowSum_toInt (m : Memory) (y x o : Nat) :
    (Int32.ofInt (a.windowSum m y x o)).toInt = a.windowSum m y x o := by
  rw [windowSum_eq]
  exact Dot.toInt_ofInt_total h.numCol_lt

theorem ConvArgs.Proper.matmul_within (base out : Nat) :
    ∀ s ∈ pulpNnMatmulU8U8I8 a.toFilters base out (out + a.chOut) a.numCol,
      Within (cells out (2 * a.chOut)) (cells base (2 * a.numCol) ∪ a.cells a.numCol) s := by
  intro s hs
  obtain ⟨i, hi, rfl | rfl⟩ := (mem_pulpNnMatmul h.numCol_lt).mp hs
  · refine (store_within h.bias hi).mono (fun z hz => ?_) (Set.union_subset_union_left _ fun z hz => ?_)
    · exact ⟨hz.1, by have := hz.2; omega⟩
    · exact ⟨hz.1, by have := hz.2; omega⟩
  · refine (store_within h.bias hi).mono (fun z hz => ?_) (Set.union_subset_union_left _ fun z hz => ?_)
    · exact ⟨by have := hz.1; omega, by have := hz.2; omega⟩
    · exact ⟨by have := hz.1; omega, by have := hz.2; omega⟩

/-- **One call of the product gives the outputs of two pixels.** -/
theorem ConvArgs.Proper.run_matmul {x' : Nat}
    (hfirst : ∀ q < a.numCol, m (base + q) =
      Convolution.line a.dimKernelX a.chIn (a.padded m') (a.windowY y) (a.windowX x) q)
    (hsecond : ∀ q < a.numCol, m (base + a.numCol + q) =
      Convolution.line a.dimKernelX a.chIn (a.padded m') (a.windowY y) (a.windowX x') q)
    (hread : Set.EqOn m m' a.readCells)
    (hdisj : Disjoint (cells out (2 * a.chOut)) (cells base (2 * a.numCol) ∪ a.cells a.numCol))
    (ho : o < a.chOut) :
    run (pulpNnMatmulU8U8I8 a.toFilters base out (out + a.chOut) a.numCol) m (out + o) =
      a.result m' y x o ∧
    run (pulpNnMatmulU8U8I8 a.toFilters base out (out + a.chOut) a.numCol) m (out + a.chOut + o) =
      a.result m' y x' o := by
  have hwithin := h.matmul_within base out
  have hmem := fun s => @mem_pulpNnMatmul a.toFilters base out (out + a.chOut) a.numCol h.numCol_lt s
  have hsame : ∀ s ∈ pulpNnMatmulU8U8I8 a.toFilters base out (out + a.chOut) a.numCol,
      ∀ t ∈ pulpNnMatmulU8U8I8 a.toFilters base out (out + a.chOut) a.numCol,
        s.cell = t.cell → s.value m = t.value m := by
    intro s hs t ht heq
    obtain ⟨i, hi, rfl | rfl⟩ := (hmem s).mp hs <;> obtain ⟨j, hj, rfl | rfl⟩ := (hmem t).mp ht <;>
      simp only [Filters.store] at heq
    · rw [show i = j by omega]
    · omega
    · omega
    · rw [show i = j by omega]
  constructor
  · have hrun := run_of_mem hwithin hdisj hsame ((hmem _).mpr ⟨o, ho, Or.inl rfl⟩)
    exact hrun.trans (store_value h.bias hfirst hread ho)
  · have hrun := run_of_mem hwithin hdisj hsame ((hmem _).mpr ⟨o, ho, Or.inr rfl⟩)
    exact hrun.trans (store_value h.bias hsecond hread ho)

end

/-! ## The columns of a line -/

section
variable {a : ConvArgs} {numCores base out y x₀ j k : Nat} {m : Memory} {p q : ByteProgram × ConvState}

/-- What a core writes to while it computes some pixels from `out` on. -/
def ConvArgs.owned (a : ConvArgs) (base out k : Nat) : Set Nat :=
  cells base (2 * a.numCol) ∪ cells out (k * a.chOut)

/-- None of it is read, apart from the windows that the core itself has copied. -/
structure ConvArgs.Clear (a : ConvArgs) (base out k : Nat) : Prop where
  base_read : Disjoint (cells base (2 * a.numCol)) a.readCells
  out_read : Disjoint (cells out (k * a.chOut)) a.readCells
  out_base : Disjoint (cells out (k * a.chOut)) (cells base (2 * a.numCol))

theorem ConvArgs.Clear.read (h : a.Clear base out k) : Disjoint (a.owned base out k) a.readCells :=
  Set.disjoint_union_left.mpr ⟨h.base_read, h.out_read⟩

/-- Some columns are done: `k` of them from `x₀` on. -/
structure Done (a : ConvArgs) (base out y x₀ k : Nat) (p : ByteProgram × ConvState) : Prop where
  pOutBuffer : p.2.pOutBuffer = out + k * a.chOut
  bias : p.2.pBias = none
  within : ∀ s ∈ p.1, Within (a.owned base out k) (a.owned base out k ∪ a.readCells) s
  value : ∀ m, ∀ i < k, ∀ o < a.chOut,
    run p.1 m (out + i * a.chOut + o) = a.result m y (x₀ + i) o

theorem Done.frame (hp : Done a base out y x₀ k p) (hclear : a.Clear base out k) (m : Memory) :
    Set.EqOn (run p.1 m) m a.readCells := fun _ hz =>
  run_of_notMem hp.within (Set.disjoint_right.mp hclear.read hz)

theorem output_mem {i o : Nat} (hi : i < k) (ho : o < a.chOut) :
    out + i * a.chOut + o ∈ cells out (k * a.chOut) := by
  have : (i + 1) * a.chOut ≤ k * a.chOut := Nat.mul_le_mul_right _ hi
  rw [Nat.add_one_mul] at this
  exact ⟨by omega, by omega⟩

/-- Columns done one after the other. -/
theorem Done.append (hp : Done a base out y x₀ j p)
    (hq : Done a base (out + j * a.chOut) y (x₀ + j) k q) (hclear : a.Clear base out (j + k)) :
    Done a base out y x₀ (j + k) (p.1 ++ q.1, q.2) := by
  have hsplit : (j + k) * a.chOut = j * a.chOut + k * a.chOut := Nat.add_mul _ _ _
  have hleft : cells out (j * a.chOut) ⊆ cells out ((j + k) * a.chOut) :=
    fun z hz => ⟨hz.1, by have := hz.2; omega⟩
  have hright : cells (out + j * a.chOut) (k * a.chOut) ⊆ cells out ((j + k) * a.chOut) :=
    fun z hz => ⟨by have := hz.1; omega, by have := hz.2; omega⟩
  have hclear' : a.Clear base out j := ⟨hclear.base_read,
    Set.disjoint_of_subset_left hleft hclear.out_read,
    Set.disjoint_of_subset_left hleft hclear.out_base⟩
  constructor
  · rw [hq.pOutBuffer, hsplit, Nat.add_assoc]
  · exact hq.bias
  · intro s hs
    rcases List.mem_append.mp hs with hs | hs
    · exact (hp.within s hs).mono (Set.union_subset_union_right _ hleft)
        (Set.union_subset_union_left _ (Set.union_subset_union_right _ hleft))
    · exact (hq.within s hs).mono (Set.union_subset_union_right _ hright)
        (Set.union_subset_union_left _ (Set.union_subset_union_right _ hright))
  · intro m i hi o ho
    rw [run_append]
    rcases Nat.lt_or_ge i j with hlt | hge
    · have hmem := @output_mem a out j i o hlt ho
      rw [run_of_notMem hq.within, hp.value m i hlt o ho]
      rintro (hbase | hout)
      · exact Set.disjoint_left.mp hclear'.out_base hmem hbase
      · have := hmem.2
        have := hout.1
        omega
    · have hvalue := hq.value (run p.1 m) (i - j) (by omega) o ho
      rw [Nat.add_assoc x₀, Nat.add_sub_cancel' hge, result_congr (hp.frame hclear' m) ho] at hvalue
      rw [← hvalue]
      congr 2
      have : i * a.chOut = j * a.chOut + (i - j) * a.chOut := by
        rw [← Nat.add_mul, Nat.add_sub_cancel' hge]
      omega

variable (h : a.Proper numCores)
include h

theorem ConvArgs.Proper.filters : { a.toFilters with pBias := none } = a.toFilters := by
  rw [← h.bias]

/-- A window that is left alone. -/
theorem ConvArgs.Proper.single_done (hclear : a.Clear base out 1) :
    Done a base out y x₀ 1 (a.im2Col y x₀ base ++ (List.range a.chOut).map fun i =>
      a.store base a.numCol out i, ⟨base + a.numCol, out + a.chOut, none⟩) := by
  have hcopied := h.im2Col_copied y x₀ base
  have hbase : cells base a.numCol ⊆ cells base (2 * a.numCol) :=
    fun z hz => ⟨hz.1, by have := hz.2; omega⟩
  have hfilters : a.cells a.numCol ⊆ a.readCells := Set.subset_union_right
  have hstores : ∀ s ∈ (List.range a.chOut).map fun i => a.store base a.numCol out i,
      Within (cells out a.chOut) (cells base a.numCol ∪ a.cells a.numCol) s := by
    intro s hs
    obtain ⟨i, hi, rfl⟩ := List.mem_map.mp hs
    exact store_within h.bias (List.mem_range.mp hi)
  have hout : 1 * a.chOut = a.chOut := Nat.one_mul _
  constructor
  · rw [hout]
  · rfl
  · intro s hs
    unfold owned
    rw [hout]
    rcases List.mem_append.mp hs with hs | hs
    · exact (hcopied.within s hs).mono (hbase.trans Set.subset_union_left)
        ((Set.subset_union_left.trans Set.subset_union_right :
          a.inputCells ⊆ _ ∪ a.readCells))
    · exact (hstores s hs).mono Set.subset_union_right (Set.union_subset_union
        (hbase.trans Set.subset_union_left) hfilters)
  · intro m i hi o ho
    obtain rfl : i = 0 := by omega
    have hdisj := hclear.out_base
    have hdisj' := hclear.out_read
    rw [hout] at hdisj hdisj'
    have hread : Set.EqOn (run (a.im2Col y x₀ base) m) m a.readCells := fun z hz =>
      run_of_notMem hcopied.within fun hmem =>
        Set.disjoint_left.mp hclear.base_read (hbase hmem) hz
    have hwindow : ∀ q < a.numCol, run (a.im2Col y x₀ base) m (base + q) = _ := fun q hq =>
      hcopied.run (Set.disjoint_of_subset hbase Set.subset_union_left hclear.base_read) hq
    have hrun := run_of_mem (m := run (a.im2Col y x₀ base) m) hstores
      (Set.disjoint_union_right.mpr ⟨Set.disjoint_of_subset_right hbase hdisj,
        Set.disjoint_of_subset_right hfilters hdisj'⟩) (fun s hs t ht heq => by
          obtain ⟨i, hi, rfl⟩ := List.mem_map.mp hs
          obtain ⟨j, hj, rfl⟩ := List.mem_map.mp ht
          simp only [Filters.store] at heq
          rw [show i = j by omega]) (List.mem_map.mpr ⟨o, List.mem_range.mpr ho, rfl⟩)
    rw [run_append, Nat.zero_mul, Nat.add_zero, Nat.add_zero]
    exact hrun.trans (store_value h.bias hwindow hread ho)

/-- Two windows and the product. -/
theorem ConvArgs.Proper.pair_done (hclear : a.Clear base out 2) (s : ConvState)
    (hs : s.pOutBuffer = out + 2 * a.chOut) (hbias : s.pBias = none) :
    Done a base out y x₀ 2 (a.im2Col y x₀ base ++ (a.im2Col y (x₀ + 1) (base + a.numCol) ++
      pulpNnMatmulU8U8I8 a.toFilters base out (out + a.chOut) a.numCol), s) := by
  have hcopied := h.im2Col_copied y x₀ base
  have hcopied' := h.im2Col_copied y (x₀ + 1) (base + a.numCol)
  have hbase : cells base a.numCol ⊆ cells base (2 * a.numCol) :=
    fun z hz => ⟨hz.1, by have := hz.2; omega⟩
  have hbase' : cells (base + a.numCol) a.numCol ⊆ cells base (2 * a.numCol) :=
    fun z hz => ⟨by have := hz.1; omega, by have := hz.2; omega⟩
  have hfilters : a.cells a.numCol ⊆ a.readCells := Set.subset_union_right
  have hinput : a.inputCells ⊆ a.owned base out 2 ∪ a.readCells :=
    Set.subset_union_left.trans Set.subset_union_right
  refine ⟨hs, hbias, fun s hs => ?_, fun m i hi o ho => ?_⟩
  · rcases List.mem_append.mp hs with hs | hs
    · exact (hcopied.within s hs).mono (hbase.trans Set.subset_union_left) hinput
    rcases List.mem_append.mp hs with hs | hs
    · exact (hcopied'.within s hs).mono (hbase'.trans Set.subset_union_left) hinput
    · exact (h.matmul_within base out s hs).mono Set.subset_union_right
        (Set.union_subset_union Set.subset_union_left hfilters)
  · -- the first window is still there when the second one has been copied
    rw [run_append, run_append]
    have hread : Set.EqOn (run (a.im2Col y x₀ base) m) m a.readCells := fun z hz =>
      run_of_notMem hcopied.within fun hmem =>
        Set.disjoint_left.mp hclear.base_read (hbase hmem) hz
    have hread' : Set.EqOn (run (a.im2Col y (x₀ + 1) (base + a.numCol)) (run (a.im2Col y x₀ base) m))
        m a.readCells := fun z hz =>
      (run_of_notMem hcopied'.within fun hmem =>
        Set.disjoint_left.mp hclear.base_read (hbase' hmem) hz).trans (hread hz)
    have hfirst : ∀ q < a.numCol, run (a.im2Col y (x₀ + 1) (base + a.numCol))
        (run (a.im2Col y x₀ base) m) (base + q) = _ := fun q hq =>
      (run_of_notMem hcopied'.within fun hmem => by have := hmem.1; omega).trans
        (hcopied.run (Set.disjoint_of_subset hbase Set.subset_union_left hclear.base_read) hq)
    have hsecond : ∀ q < a.numCol, run (a.im2Col y (x₀ + 1) (base + a.numCol))
        (run (a.im2Col y x₀ base) m) (base + a.numCol + q) =
          Convolution.line a.dimKernelX a.chIn (a.padded m) (a.windowY y) (a.windowX (x₀ + 1)) q := by
      intro q hq
      rw [hcopied'.run (Set.disjoint_of_subset hbase' Set.subset_union_left hclear.base_read) hq]
      exact padded_eqOn (hread.mono Set.subset_union_left) _ _
        (Nat.mod_lt q (Nat.pos_of_mul_pos_left (Nat.zero_lt_of_lt hq)))
    obtain ⟨hrun, hrun'⟩ := h.run_matmul hfirst hsecond hread'
      (Set.disjoint_union_right.mpr ⟨hclear.out_base,
        Set.disjoint_of_subset_right hfilters hclear.out_read⟩) ho
    obtain rfl | rfl : i = 0 ∨ i = 1 := by omega
    · rw [Nat.zero_mul, Nat.add_zero, Nat.add_zero]
      exact hrun
    · rw [Nat.one_mul]
      exact hrun'

theorem ConvArgs.Proper.pixels_single (x : Nat) :
    a.pixels base y ⟨base, out, none⟩ [x] = (a.im2Col y x base ++ (List.range a.chOut).map fun i =>
      a.store base a.numCol out i, ⟨base + a.numCol, out + a.chOut, none⟩) := by
  have hpos := h.numCol_pos
  unfold pixels
  simp only [steps, pixel, leftover]
  rw [if_neg (by omega)]
  simp only [List.append_nil, h.filters]
  rw [if_pos (by omega)]
  rfl

theorem ConvArgs.Proper.pixels_pair (x x' : Nat) (xs : List Nat) :
    a.pixels base y ⟨base, out, none⟩ (x :: x' :: xs) =
      ((a.im2Col y x base ++ (a.im2Col y x' (base + a.numCol) ++
        pulpNnMatmulU8U8I8 a.toFilters base out (out + a.chOut) a.numCol)) ++
        (a.pixels base y ⟨base, out + 2 * a.chOut, none⟩ xs).1,
        (a.pixels base y ⟨base, out + 2 * a.chOut, none⟩ xs).2) := by
  have hpos := h.numCol_pos
  have hfirst : a.pixel base y ⟨base, out, none⟩ x =
      (a.im2Col y x base, ⟨base + a.numCol, out, none⟩) := if_neg (by dsimp only; omega)
  have hsecond : a.pixel base y ⟨base + a.numCol, out, none⟩ x' =
      (a.im2Col y x' (base + a.numCol) ++
        pulpNnMatmulU8U8I8 a.toFilters base out (out + a.chOut) a.numCol,
        ⟨base, out + 2 * a.chOut, none⟩) := by
    refine (if_pos (by dsimp only; omega)).trans ?_
    rw [h.filters]
  unfold pixels
  rw [steps, steps, hfirst]
  dsimp only
  rw [hsecond]
  simp only [List.append_assoc]

/-- **The columns that a core does of a line**, two at a time. -/
theorem ConvArgs.Proper.pixels_done (k : Nat) : ∀ x₀ out, a.Clear base out k →
    Done a base out y x₀ k (a.pixels base y ⟨base, out, none⟩ (List.range' x₀ k)) := by
  induction k using Nat.twoStepInduction with
  | zero =>
    intro x₀ out _
    have hnil : a.pixels base y ⟨base, out, none⟩ [] = ([], ⟨base, out, none⟩) := by
      simp [pixels, steps, leftover]
    rw [List.range'_zero, hnil]
    exact ⟨by simp, rfl, fun s hs => absurd hs List.not_mem_nil, fun m i hi => by omega⟩
  | one =>
    intro x₀ out hclear
    rw [List.range'_one, h.pixels_single]
    exact h.single_done hclear
  | more k ih _ =>
    intro x₀ out hclear
    have hsplit : (k + 2) * a.chOut = 2 * a.chOut + k * a.chOut := by ring
    have hleft : cells out (2 * a.chOut) ⊆ cells out ((k + 2) * a.chOut) :=
      fun z hz => ⟨hz.1, by have := hz.2; omega⟩
    have hright : cells (out + 2 * a.chOut) (k * a.chOut) ⊆ cells out ((k + 2) * a.chOut) :=
      fun z hz => ⟨by have := hz.1; omega, by have := hz.2; omega⟩
    have hfirst : a.Clear base out 2 := ⟨hclear.base_read,
      Set.disjoint_of_subset_left hleft hclear.out_read,
      Set.disjoint_of_subset_left hleft hclear.out_base⟩
    have hrest := ih (x₀ + 2) (out + 2 * a.chOut) ⟨hclear.base_read,
      Set.disjoint_of_subset_left hright hclear.out_read,
      Set.disjoint_of_subset_left hright hclear.out_base⟩
    have hpair : Done a base out y x₀ 2 _ :=
      h.pair_done hfirst ⟨base, out + 2 * a.chOut, none⟩ rfl rfl
    rw [List.range'_succ, List.range'_succ, h.pixels_pair, Nat.add_comm k 2]
    exact hpair.append hrest (Nat.add_comm k 2 ▸ hclear)

end

end AiDeck.Network
