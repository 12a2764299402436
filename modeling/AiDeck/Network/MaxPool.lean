import Mathlib
import AiDeck.Lib.Copies
import AiDeck.Network.Matmul
import AiDeck.Network.Shares

/-! # Maximum pooling

`pulp_nn_maxpool_u8` takes the maximum along the lines first, in place: the result of a
column is stored over the input while the columns to its right are still to be read. After a
barrier the lines are taken together in the output. -/
namespace AiDeck.Network

open Finset AiDeck.Lib.Cores AiDeck.Lib.Copies

/-! ## The kernel -/

/-- `*pIn = *pCom` where that is larger. -/
def larger (a b : UInt8) : UInt8 := if a < b then b else a

structure MaxpoolArgs where
  pIn : Nat
  pOut : Nat
  dimImInX : Nat
  dimImInY : Nat
  chImIn : Nat
  dimImOutX : Nat
  dimImOutY : Nat
  dimKernelX : Nat
  dimKernelY : Nat
  paddingT : Nat
  paddingL : Nat
  strideX : Nat
  strideY : Nat

section
variable (a : MaxpoolArgs)

def MaxpoolArgs.pixelIn (y x : Nat) : Nat := a.pIn + (y * a.dimImInX + x) * a.chImIn

def MaxpoolArgs.pixelOut (y x : Nat) : Nat := a.pOut + (y * a.dimImOutX + x) * a.chImIn

/-- The columns of `win_start` and `win_stop`. -/
def MaxpoolArgs.winStart (x : Nat) : Int :=
  if (x : Int) * a.strideX - a.paddingL < 0 then x else x * a.strideX - a.paddingL

def MaxpoolArgs.winStop (x : Nat) : Int :=
  if (x : Int) * a.strideX - a.paddingL + a.dimKernelX ≥ a.dimImInX then a.dimImInX
  else x * a.strideX - a.paddingL + a.dimKernelX

/-- The lines of `row_start` and `row_end`. -/
def MaxpoolArgs.rowStart (y : Nat) : Int :=
  if (y : Int) * a.strideY - a.paddingT < 0 then 0 else y * a.strideY - a.paddingT

def MaxpoolArgs.rowEnd (y : Nat) : Int :=
  if (y : Int) * a.strideY - a.paddingT + a.dimKernelY ≥ a.dimImInY then a.dimImInY
  else y * a.strideY - a.paddingT + a.dimKernelY

/-- What comes behind the first up to the end. -/
def behind (start stop : Int) : List Nat :=
  List.range' (start + 1).toNat (stop - (start + 1)).toNat

/-- The columns of an input line; four bytes are compared at a time, which comes to the same
as each of a column lies behind what has been stored. -/
def MaxpoolArgs.poolLine (y : Nat) : ByteProgram :=
  (List.range a.dimImOutX).flatMap fun x =>
    gather larger (a.pixelIn y x) a.chImIn (a.pixelIn y (a.winStart x).toNat)
      ((behind (a.winStart x) (a.winStop x)).map (a.pixelIn y))

/-- An output line; the length of the comparison is a `uint16_t`. -/
def MaxpoolArgs.poolLines (y : Nat) : ByteProgram :=
  let length := a.dimImOutX * a.chImIn
  combine (fun _ b => b) (a.pixelOut y 0) (a.pixelIn (a.rowStart y).toNat 0) length ++
    ((behind (a.rowStart y) (a.rowEnd y)).map fun r => a.pixelIn r 0).flatMap fun src =>
      combine larger (a.pixelOut y 0) src (length % 2 ^ 16)

/-- `n_cores`, and what it is for the second half: it only changes where there are fewer lines
of output than cores. -/
def MaxpoolArgs.nCores (numCores : Nat) : Nat :=
  if a.dimImInY < numCores then a.dimImInY else numCores

def MaxpoolArgs.nCores2 (numCores : Nat) : Nat :=
  if a.dimImOutY < numCores then a.dimImOutY else a.nCores numCores

def MaxpoolArgs.chunck (numCores : Nat) : Nat :=
  coreChunk (a.nCores numCores).log2 numCores a.dimImInY

def MaxpoolArgs.chunck2 (numCores : Nat) : Nat :=
  coreChunk (a.nCores2 numCores).log2 numCores a.dimImOutY

/-- `pulp_nn_maxpool_u8` on some cores; `start2` is not kept within the lines. -/
def pulpNnMaxpoolU8 (numCores : Nat) (m n : Memory) : Prop :=
  ∃ m', Phase (fun core : Fin numCores =>
      (lines (a.chunck numCores) a.dimImInY core).flatMap a.poolLine) m m' ∧
    Phase (fun core : Fin numCores =>
      (Lib.Share.block a.dimImOutY (a.chunck2 numCores) core).flatMap a.poolLines) m' n

end

/-! ## Maxima -/

theorem larger_toNat (x y : UInt8) : (larger x y).toNat = max x.toNat y.toNat := by
  unfold larger
  split
  next h => exact (max_eq_right (UInt8.lt_iff_toNat_lt.mp h).le).symm
  next h => exact (max_eq_left (UInt8.le_iff_toNat_le.mp (UInt8.not_lt.mp h))).symm

/-- The largest of some bytes one after the other. -/
theorem foldl_larger (f : Nat → UInt8) (i k : Nat) :
    ((List.range' (i + 1) k).foldl (fun b s => larger b (f s)) (f i)).toNat =
      (Ico i (i + k + 1)).sup fun s => (f s).toNat := by
  induction k with
  | zero => simp
  | succ k ih =>
    have hinsert : Ico i (i + (k + 1) + 1) = insert (i + k + 1) (Ico i (i + k + 1)) := by
      ext x
      simp only [mem_insert, mem_Ico]
      omega
    rw [List.range'_concat, List.foldl_append, hinsert, sup_insert, ← ih]
    simp only [List.foldl_cons, List.foldl_nil, larger_toNat, Nat.one_mul]
    rw [max_comm, Nat.add_right_comm]

/-- The positions that a result is taken from: those of its window that are there. -/
def poolWindow (i stride padding kernel dim : Nat) : Finset Nat :=
  Ico (i * stride - padding) (min dim (i * stride + kernel - padding))

/-- What is gathered from the start of a window to its end. -/
theorem gathered_toNat (f : Nat → UInt8) {i stride padding kernel dim : Nat} {start stop : Int}
    (hstart : start = (i * stride - padding : Nat))
    (hstop : stop = (min dim (i * stride + kernel - padding) : Nat))
    (hin : i * stride - padding < min dim (i * stride + kernel - padding)) :
    ((behind start stop).foldl (fun b s => larger b (f s)) (f start.toNat)).toNat =
      (poolWindow i stride padding kernel dim).sup fun s => (f s).toNat := by
  have hfirst : start.toNat = i * stride - padding := by omega
  unfold behind poolWindow
  rw [hfirst, show (start + 1).toNat = i * stride - padding + 1 by omega, foldl_larger]
  congr 2
  omega

/-! ## Cells -/

section
variable {a : MaxpoolArgs}

/-- The cells of an input line. -/
def lineIn (a : MaxpoolArgs) (y : Nat) : Set Nat := cells (a.pixelIn y 0) (a.dimImInX * a.chImIn)

theorem pixelIn_cells {y x : Nat} (hx : x < a.dimImInX) :
    cells (a.pixelIn y x) a.chImIn ⊆ lineIn a y := by
  have hend : (x + 1) * a.chImIn ≤ a.dimImInX * a.chImIn := Nat.mul_le_mul_right _ hx
  intro z hz
  rw [lineIn, mem_cells]
  rw [mem_cells] at hz
  unfold MaxpoolArgs.pixelIn at *
  simp only [Nat.add_mul, Nat.zero_mul, Nat.one_mul] at *
  omega

theorem pixelIn_disjoint {y x x' : Nat} (hx : x' < x) :
    Disjoint (cells (a.pixelIn y x) a.chImIn) (cells (a.pixelIn y x') a.chImIn) := by
  have hend : (x' + 1) * a.chImIn ≤ x * a.chImIn := Nat.mul_le_mul_right _ hx
  refine Set.disjoint_left.mpr fun z hz hz' => ?_
  rw [mem_cells] at hz hz'
  unfold MaxpoolArgs.pixelIn at *
  simp only [Nat.add_mul, Nat.one_mul] at *
  omega

/-- The cells of an input line, of an output line and of the whole input. -/
def lineOut (a : MaxpoolArgs) (y : Nat) : Set Nat := cells (a.pixelOut y 0) (a.dimImOutX * a.chImIn)

def inputCells (a : MaxpoolArgs) : Set Nat := cells a.pIn (a.dimImInY * a.dimImInX * a.chImIn)

def outputCells (a : MaxpoolArgs) : Set Nat := cells a.pOut (a.dimImOutY * a.dimImOutX * a.chImIn)

theorem lineIn_subset {y : Nat} (hy : y < a.dimImInY) : lineIn a y ⊆ inputCells a := by
  have hend : (y + 1) * a.dimImInX * a.chImIn ≤ a.dimImInY * a.dimImInX * a.chImIn :=
    Nat.mul_le_mul_right _ (Nat.mul_le_mul_right _ hy)
  intro z hz
  rw [inputCells, mem_cells]
  rw [lineIn, mem_cells] at hz
  unfold MaxpoolArgs.pixelIn at hz
  simp only [Nat.add_mul, Nat.add_zero, Nat.one_mul] at *
  omega

theorem lineOut_subset {y : Nat} (hy : y < a.dimImOutY) : lineOut a y ⊆ outputCells a := by
  have hend : (y + 1) * a.dimImOutX * a.chImIn ≤ a.dimImOutY * a.dimImOutX * a.chImIn :=
    Nat.mul_le_mul_right _ (Nat.mul_le_mul_right _ hy)
  intro z hz
  rw [outputCells, mem_cells]
  rw [lineOut, mem_cells] at hz
  unfold MaxpoolArgs.pixelOut at hz
  simp only [Nat.add_mul, Nat.add_zero, Nat.one_mul] at *
  omega

theorem pixelOut_mem {y x c : Nat} (hx : x < a.dimImOutX) (hc : c < a.chImIn) :
    a.pixelOut y x + c ∈ lineOut a y := by
  have hend : (x + 1) * a.chImIn ≤ a.dimImOutX * a.chImIn := Nat.mul_le_mul_right _ hx
  rw [lineOut, mem_cells]
  unfold MaxpoolArgs.pixelOut
  simp only [Nat.add_mul, Nat.zero_mul, Nat.one_mul] at *
  omega

end

/-! ## A line -/

section
variable {a : MaxpoolArgs}

/-- The geometry for which the kernel is made: each window begins in the image, so that it is
not empty, and in a line the result lies at its beginning or before. -/
structure MaxpoolArgs.Proper (a : MaxpoolArgs) : Prop where
  apart : a.pIn + a.dimImInY * a.dimImInX * a.chImIn ≤ a.pOut ∨
    a.pOut + a.dimImOutY * a.dimImOutX * a.chImIn ≤ a.pIn
  length : a.dimImOutX * a.chImIn < 2 ^ 16
  columns : ∀ x < a.dimImOutX, x * a.strideX < a.dimImInX + a.paddingL
  lines : ∀ y < a.dimImOutY, y * a.strideY < a.dimImInY + a.paddingT
  columns_pos : 0 < a.dimImInX
  lines_pos : 0 < a.dimImInY
  paddingL : a.paddingL < a.dimKernelX
  paddingT : a.paddingT < a.dimKernelY
  in_place : a.dimImOutX ≤ 1 ∨ a.paddingL < a.strideX

variable (h : a.Proper)
include h

/-- A window of a line begins where its result is stored, or behind. -/
theorem MaxpoolArgs.Proper.le_window {x : Nat} (hx : x < a.dimImOutX) :
    x ≤ x * a.strideX - a.paddingL ∧ (x = 0 ∨ a.paddingL ≤ x * a.strideX) := by
  rcases Nat.eq_zero_or_pos x with rfl | hpos
  · exact ⟨Nat.zero_le _, Or.inl rfl⟩
  · rcases h.in_place with hone | hstride
    · omega
    · have hmul : x * (a.paddingL + 1) ≤ x * a.strideX := Nat.mul_le_mul_left x hstride
      have hle : a.paddingL ≤ x * a.paddingL := Nat.le_mul_of_pos_left _ hpos
      rw [Nat.mul_add, Nat.mul_one] at hmul
      omega

theorem MaxpoolArgs.Proper.winStart_eq {x : Nat} (hx : x < a.dimImOutX) :
    a.winStart x = (x * a.strideX - a.paddingL : Nat) := by
  obtain ⟨-, hzero | hle⟩ := h.le_window hx
  · subst hzero
    unfold winStart
    simp only [Nat.cast_zero, zero_mul, Nat.zero_sub]
    split
    · rfl
    · omega
  · unfold winStart
    rw [← Nat.cast_mul, if_neg (by omega), Nat.cast_sub hle]

theorem MaxpoolArgs.Proper.winStop_eq (x : Nat) :
    a.winStop x = (min a.dimImInX (x * a.strideX + a.dimKernelX - a.paddingL) : Nat) := by
  have hpadding := h.paddingL
  unfold winStop
  rw [← Nat.cast_mul]
  split <;> omega

theorem MaxpoolArgs.Proper.window_nonempty {x : Nat} (hx : x < a.dimImOutX) :
    x * a.strideX - a.paddingL < min a.dimImInX (x * a.strideX + a.dimKernelX - a.paddingL) := by
  have := h.columns x hx
  have := h.columns_pos
  have := h.paddingL
  omega

/-- The first columns of a line. -/
def poolColumns (a : MaxpoolArgs) (y k : Nat) : ByteProgram :=
  (List.range k).flatMap fun x =>
    gather larger (a.pixelIn y x) a.chImIn (a.pixelIn y (a.winStart x).toNat)
      ((behind (a.winStart x) (a.winStop x)).map (a.pixelIn y))

omit h in
/-- What the columns behind the first ones hold is still the input. -/
theorem run_poolColumns_of_ge {y k x c : Nat} (hx : k ≤ x) (m : Memory) (hc : c < a.chImIn) :
    run (poolColumns a y k) m (a.pixelIn y x + c) = m (a.pixelIn y x + c) := by
  refine run_unwritten (fun s hs => ?_) m
  obtain ⟨x', hx', hs⟩ := List.mem_flatMap.mp hs
  have hlt := List.mem_range.mp hx'
  have hcell := (gather_within (Set.subset_univ _) (Set.subset_univ _)
    (fun _ _ => Set.subset_univ _) s hs).cell
  intro heq
  rw [heq] at hcell
  exact Set.disjoint_left.mp (pixelIn_disjoint (show x' < x by omega))
    ⟨Nat.le_add_right _ _, by omega⟩ hcell

/-- **The first columns hold the maxima of their windows** in the line as it was. -/
theorem run_poolColumns {y k : Nat} (hk : k ≤ a.dimImOutX) (m : Memory) :
    ∀ x < k, ∀ c < a.chImIn, (run (poolColumns a y k) m (a.pixelIn y x + c)).toNat =
      (poolWindow x a.strideX a.paddingL a.dimKernelX a.dimImInX).sup fun s =>
        (m (a.pixelIn y s + c)).toNat := by
  induction k with
  | zero => intro x hx; omega
  | succ k ih =>
    intro x hx c hc
    have hk' : k < a.dimImOutX := hk
    have hsplit : poolColumns a y (k + 1) = poolColumns a y k ++
        gather larger (a.pixelIn y k) a.chImIn (a.pixelIn y (a.winStart k).toNat)
          ((behind (a.winStart k) (a.winStop k)).map (a.pixelIn y)) := by
      rw [poolColumns, List.range_succ, List.flatMap_append, List.flatMap_singleton]
      rfl
    rw [hsplit, run_append]
    rcases Nat.lt_or_ge x k with hlt | hge
    · have hnot : a.pixelIn y x + c ∉ cells (a.pixelIn y k) a.chImIn := fun hmem =>
        Set.disjoint_left.mp (pixelIn_disjoint hlt) hmem ⟨Nat.le_add_right _ _, by omega⟩
      rw [run_gather_of_notMem hnot]
      exact ih hk'.le x hlt c hc
    · obtain rfl : x = k := by omega
      have hstart := h.winStart_eq hk'
      have hstop := h.winStop_eq x
      have hle := (h.le_window hk').1
      have hfirst : (a.winStart x).toNat = x * a.strideX - a.paddingL := by omega
      have hbehind : ∀ s ∈ behind (a.winStart x) (a.winStop x), x < s := by
        intro s hs
        have := (List.mem_range'_1.mp hs).1
        omega
      -- what is gathered has not been overwritten
      have hgather := gathered_toNat (fun s => m (a.pixelIn y s + c)) hstart hstop
        (h.window_nonempty hk')
      rw [run_gather ?_ ?_ hc, ← hgather, List.foldl_map]
      · congr 1
        rw [run_poolColumns_of_ge (by omega) m hc]
        refine List.foldl_ext _ _ _ fun b s hs => ?_
        rw [run_poolColumns_of_ge (hbehind s hs).le m hc]
      · refine Or.inl ?_
        rw [hfirst]
        exact Nat.add_le_add_left (Nat.mul_le_mul_right _ (by omega)) _
      · intro s hs
        obtain ⟨col, hcol, rfl⟩ := List.mem_map.mp hs
        exact pixelIn_disjoint (hbehind col hcol)

theorem poolLine_within {y : Nat} : ∀ s ∈ a.poolLine y, Within (lineIn a y) (lineIn a y) s := by
  intro s hs
  obtain ⟨x, hx, hs⟩ := List.mem_flatMap.mp hs
  have hx := List.mem_range.mp hx
  have hstart := h.winStart_eq hx
  have hstop := h.winStop_eq x
  have hnonempty := h.window_nonempty hx
  have hle := (h.le_window hx).1
  have hcells : cells (a.pixelIn y x) a.chImIn ⊆ lineIn a y := pixelIn_cells (by omega)
  have hwithin := gather_within hcells (pixelIn_cells (by omega)) (fun src hsrc => ?_) s hs
  · exact ⟨hcells hwithin.cell, hwithin.value⟩
  · obtain ⟨col, hcol, rfl⟩ := List.mem_map.mp hsrc
    have := List.mem_range'_1.mp hcol
    exact pixelIn_cells (by omega)

omit h in
theorem MaxpoolArgs.nCores_le (numCores : Nat) : a.nCores numCores ≤ numCores := by
  unfold nCores
  split <;> omega

omit h in
theorem MaxpoolArgs.nCores2_le (numCores : Nat) : a.nCores2 numCores ≤ numCores := by
  have := a.nCores_le numCores
  unfold nCores2
  split <;> omega

omit h in
/-- The cores do all lines, whether there are more of them than cores or fewer. -/
theorem MaxpoolArgs.le_mul_chunck (k : Nat) : a.dimImInY ≤ 2 ^ k * a.chunck (2 ^ k) :=
  le_mul_coreChunk (log2_le (a.nCores_le _))

omit h in
theorem MaxpoolArgs.le_mul_chunck2 (k : Nat) : a.dimImOutY ≤ 2 ^ k * a.chunck2 (2 ^ k) :=
  le_mul_coreChunk (log2_le (a.nCores2_le _))

variable {k : Nat} {m m' n : Memory}

/-- After the first phase the lines of the input hold the maxima along them. -/
theorem poolLine_phase (hphase : Phase (fun core : Fin (2 ^ k) =>
      (lines (a.chunck (2 ^ k)) a.dimImInY core).flatMap a.poolLine) m m') :
    (∀ y < a.dimImInY, ∀ x < a.dimImOutX, ∀ c < a.chImIn, (m' (a.pixelIn y x + c)).toNat =
      (poolWindow x a.strideX a.paddingL a.dimKernelX a.dimImInX).sup fun s =>
        (m (a.pixelIn y s + c)).toNat) ∧
    ∀ z, z ∉ inputCells a → m' z = m z := by
  have hunits := hphase.units (shares_lines (a.le_mul_chunck k))
  obtain ⟨hlines, hframe⟩ := hunits.unit (lineIn a) (lineIn a) (fun y _ => poolLine_within h)
    fun u _ v _ huv => by
      have := cells_disjoint (p := a.pIn) (w := a.dimImInX * a.chImIn) huv
      unfold lineIn MaxpoolArgs.pixelIn
      simpa only [Nat.add_zero, Nat.mul_assoc] using this
  refine ⟨fun y hy x hx c hc => ?_, fun z hz => hframe z fun y hy hmem => hz (lineIn_subset hy hmem)⟩
  have hle := (h.le_window hx).1
  have hnonempty := h.window_nonempty hx
  rw [hlines y hy (pixelIn_cells (show x < a.dimImInX by omega)
    ⟨Nat.le_add_right _ _, by omega⟩)]
  exact run_poolColumns h le_rfl m x hx c hc

omit h in
theorem MaxpoolArgs.rowStart_eq (y : Nat) :
    a.rowStart y = (y * a.strideY - a.paddingT : Nat) := by
  unfold rowStart
  rw [← Nat.cast_mul]
  split <;> omega

theorem MaxpoolArgs.Proper.rowEnd_eq (y : Nat) :
    a.rowEnd y = (min a.dimImInY (y * a.strideY + a.dimKernelY - a.paddingT) : Nat) := by
  have hpadding := h.paddingT
  unfold rowEnd
  rw [← Nat.cast_mul]
  split <;> omega

theorem MaxpoolArgs.Proper.rows_nonempty {y : Nat} (hy : y < a.dimImOutY) :
    y * a.strideY - a.paddingT < min a.dimImInY (y * a.strideY + a.dimKernelY - a.paddingT) := by
  have := h.lines y hy
  have := h.lines_pos
  have := h.paddingT
  omega

theorem MaxpoolArgs.Proper.input_disjoint : Disjoint (inputCells a) (outputCells a) := by
  refine Set.disjoint_left.mpr fun z hz hz' => ?_
  rw [inputCells, mem_cells] at hz
  rw [outputCells, mem_cells] at hz'
  rcases h.apart with hle | hle <;> omega

/-! ## A line of the output -/

theorem MaxpoolArgs.Proper.poolLines_eq (y : Nat) :
    a.poolLines y = gather larger (a.pixelOut y 0) (a.dimImOutX * a.chImIn)
      (a.pixelIn (a.rowStart y).toNat 0)
      ((behind (a.rowStart y) (a.rowEnd y)).map fun r => a.pixelIn r 0) := by
  unfold poolLines gather
  dsimp only
  rw [Nat.mod_eq_of_lt h.length]

/-- The lines of a window are lines of the input, of which there are enough columns. -/
theorem MaxpoolArgs.Proper.row_cells {r : Nat} (hr : r < a.dimImInY) :
    cells (a.pixelIn r 0) (a.dimImOutX * a.chImIn) ⊆ inputCells a := by
  refine Set.Subset.trans (fun z hz => ?_) (lineIn_subset hr)
  have hcolumns : a.dimImOutX ≤ a.dimImInX := by
    rcases Nat.eq_zero_or_pos a.dimImOutX with hzero | hpos
    · omega
    · have hle := (h.le_window (show a.dimImOutX - 1 < a.dimImOutX by omega)).1
      have hnonempty := h.window_nonempty (show a.dimImOutX - 1 < a.dimImOutX by omega)
      omega
  have hend : a.dimImOutX * a.chImIn ≤ a.dimImInX * a.chImIn := Nat.mul_le_mul_right _ hcolumns
  rw [lineIn, mem_cells]
  rw [mem_cells] at hz
  omega

theorem MaxpoolArgs.Proper.rows_in {y : Nat} (hy : y < a.dimImOutY) :
    (a.rowStart y).toNat < a.dimImInY ∧
      ∀ r ∈ behind (a.rowStart y) (a.rowEnd y), r < a.dimImInY := by
  have hstart := a.rowStart_eq y
  have hend := h.rowEnd_eq y
  have hnonempty := h.rows_nonempty hy
  refine ⟨by omega, fun r hr => ?_⟩
  have := List.mem_range'_1.mp hr
  omega

theorem poolLines_within {y : Nat} (hy : y < a.dimImOutY) :
    ∀ s ∈ a.poolLines y, Within (lineOut a y) (lineOut a y ∪ inputCells a) s := by
  obtain ⟨hfirst, hrest⟩ := h.rows_in hy
  rw [h.poolLines_eq]
  refine gather_within Set.subset_union_left
    ((h.row_cells hfirst).trans Set.subset_union_right) fun src hsrc => ?_
  obtain ⟨r, hr, rfl⟩ := List.mem_map.mp hsrc
  exact (h.row_cells (hrest r hr)).trans Set.subset_union_right

/-- A line of the output holds the maxima of the lines of its window. -/
theorem run_poolLines {y x c : Nat} (hy : y < a.dimImOutY) (hx : x < a.dimImOutX)
    (hc : c < a.chImIn) (m : Memory) :
    (run (a.poolLines y) m (a.pixelOut y x + c)).toNat =
      (poolWindow y a.strideY a.paddingT a.dimKernelY a.dimImInY).sup fun r =>
        (m (a.pixelIn r x + c)).toNat := by
  obtain ⟨hfirst, hrest⟩ := h.rows_in hy
  have hplace : x * a.chImIn + c < a.dimImOutX * a.chImIn := by
    have : (x + 1) * a.chImIn ≤ a.dimImOutX * a.chImIn := Nat.mul_le_mul_right _ hx
    rw [Nat.add_one_mul] at this
    omega
  have hout : a.pixelOut y x + c = a.pixelOut y 0 + (x * a.chImIn + c) := by
    unfold MaxpoolArgs.pixelOut
    ring
  have hin : ∀ r, a.pixelIn r 0 + (x * a.chImIn + c) = a.pixelIn r x + c := by
    intro r
    unfold MaxpoolArgs.pixelIn
    ring
  have hdisj : ∀ r < a.dimImInY, Disjoint (cells (a.pixelIn r 0) (a.dimImOutX * a.chImIn))
      (cells (a.pixelOut y 0) (a.dimImOutX * a.chImIn)) := fun r hr =>
    Set.disjoint_of_subset (h.row_cells hr) (lineOut_subset hy) h.input_disjoint
  have hahead : Ahead (a.pixelOut y 0) (a.pixelIn (a.rowStart y).toNat 0)
      (a.dimImOutX * a.chImIn) := ahead_of_disjoint (hdisj _ hfirst)
  have hgather := gathered_toNat (fun r => m (a.pixelIn r x + c)) (a.rowStart_eq y)
    (h.rowEnd_eq y) (h.rows_nonempty hy)
  rw [h.poolLines_eq, hout, run_gather hahead ?_ hplace, ← hgather, List.foldl_map]
  · simp only [hin]
  · intro s hs
    obtain ⟨r, hr, rfl⟩ := List.mem_map.mp hs
    exact hdisj r (hrest r hr)

/-- After the second phase the output holds the maxima of what the input has become. -/
theorem poolLines_phase (hphase : Phase (fun core : Fin (2 ^ k) =>
      (Lib.Share.block a.dimImOutY (a.chunck2 (2 ^ k)) core).flatMap a.poolLines) m' n) :
    (∀ y < a.dimImOutY, ∀ x < a.dimImOutX, ∀ c < a.chImIn, (n (a.pixelOut y x + c)).toNat =
      (poolWindow y a.strideY a.paddingT a.dimKernelY a.dimImInY).sup fun r =>
        (m' (a.pixelIn r x + c)).toNat) ∧
    ∀ z, z ∉ outputCells a → n z = m' z := by
  have hunits := hphase.units (shares_block (a.le_mul_chunck2 k))
  obtain ⟨hlines, hframe⟩ := hunits.unit (lineOut a) (fun y => lineOut a y ∪ inputCells a)
    (fun y hy => poolLines_within h hy) fun u hu v _ huv => by
      refine Set.disjoint_union_right.mpr ⟨?_, ?_⟩
      · have := cells_disjoint (p := a.pOut) (w := a.dimImOutX * a.chImIn) huv
        unfold lineOut MaxpoolArgs.pixelOut
        simpa only [Nat.add_zero, Nat.mul_assoc] using this
      · exact (Set.disjoint_of_subset_right (lineOut_subset hu) h.input_disjoint).symm
  refine ⟨fun y hy x hx c hc => ?_, fun z hz => hframe z fun y hy hmem => hz (lineOut_subset hy hmem)⟩
  rw [hlines y hy (Or.inl (pixelOut_mem hx hc))]
  exact run_poolLines h hy hx hc m'

theorem pulpNnMaxpoolU8_value (hrun : pulpNnMaxpoolU8 a (2 ^ k) m n) :
    ∀ y < a.dimImOutY, ∀ x < a.dimImOutX, ∀ c < a.chImIn, (n (a.pixelOut y x + c)).toNat =
      (poolWindow y a.strideY a.paddingT a.dimKernelY a.dimImInY ×ˢ
        poolWindow x a.strideX a.paddingL a.dimKernelX a.dimImInX).sup fun q =>
          (m (a.pixelIn q.1 q.2 + c)).toNat := by
  obtain ⟨m', hfirst, hsecond⟩ := hrun
  intro y hy x hx c hc
  have hend := h.rows_nonempty hy
  rw [(poolLines_phase h hsecond).1 y hy x hx c hc, sup_product_left]
  refine sup_congr rfl fun r hr => ?_
  have hr := mem_Ico.mp hr
  exact (poolLine_phase h hfirst).1 r (by omega) x hx c hc

theorem pulpNnMaxpoolU8_frame (hrun : pulpNnMaxpoolU8 a (2 ^ k) m n) {z : Nat}
    (hz : z ∉ inputCells a) (hz' : z ∉ outputCells a) : n z = m z := by
  obtain ⟨m', hfirst, hsecond⟩ := hrun
  rw [(poolLines_phase h hsecond).2 z hz', (poolLine_phase h hfirst).2 z hz]

omit h in
theorem exists_pulpNnMaxpoolU8 (a : MaxpoolArgs) (numCores : Nat) (m : Memory) :
    ∃ n, pulpNnMaxpoolU8 a numCores m n := by
  obtain ⟨m', hfirst⟩ := exists_phase (fun core : Fin numCores =>
    (lines (a.chunck numCores) a.dimImInY core).flatMap a.poolLine) m
  obtain ⟨n, hsecond⟩ := exists_phase (fun core : Fin numCores =>
    (Lib.Share.block a.dimImOutY (a.chunck2 numCores) core).flatMap a.poolLines) m'
  exact ⟨n, m', hfirst, hsecond⟩

/-- **The kernel takes the maximum of each window**, however the cores take turns: it comes to
its end, its output holds the maxima of the input as it was, and nothing outside the two is
written. -/
theorem pulpNnMaxpoolU8_spec (k : Nat) (m : Memory) :
    (∃ n, pulpNnMaxpoolU8 a (2 ^ k) m n) ∧ ∀ n, pulpNnMaxpoolU8 a (2 ^ k) m n →
      (∀ y < a.dimImOutY, ∀ x < a.dimImOutX, ∀ c < a.chImIn, (n (a.pixelOut y x + c)).toNat =
        (poolWindow y a.strideY a.paddingT a.dimKernelY a.dimImInY ×ˢ
          poolWindow x a.strideX a.paddingL a.dimKernelX a.dimImInX).sup fun q =>
            (m (a.pixelIn q.1 q.2 + c)).toNat) ∧
      ∀ z, z ∉ inputCells a → z ∉ outputCells a → n z = m z :=
  ⟨exists_pulpNnMaxpoolU8 a _ m, fun _ hrun =>
    ⟨pulpNnMaxpoolU8_value h hrun, fun _ hz hz' => pulpNnMaxpoolU8_frame h hrun hz hz'⟩⟩

end

/-- A pool of three lines of three columns with padding, over two channels. -/
def paddedPool : MaxpoolArgs where
  pIn := 0
  pOut := 18
  dimImInX := 3
  dimImInY := 3
  chImIn := 2
  dimImOutX := 2
  dimImOutY := 2
  dimKernelX := 3
  dimKernelY := 3
  paddingT := 1
  paddingL := 1
  strideX := 2
  strideY := 2

theorem paddedPool_proper : paddedPool.Proper where
  apart := by decide
  length := by decide
  columns := by decide
  lines := by decide
  columns_pos := by decide
  lines_pos := by decide
  paddingL := by decide
  paddingT := by decide
  in_place := by decide

/-- Eight cores find 16 at the last pixel of bytes that count up. -/
theorem pulpNnMaxpoolU8_spec_padded : ∃ n, pulpNnMaxpoolU8 paddedPool (2 ^ 3) UInt8.ofNat n ∧
    (n (paddedPool.pixelOut 1 1)).toNat = 16 := by
  obtain ⟨⟨n, hrun⟩, hall⟩ := pulpNnMaxpoolU8_spec paddedPool_proper 3 UInt8.ofNat
  have hvalue := (hall n hrun).1 1 (by decide) 1 (by decide) 0 (by decide)
  exact ⟨n, hrun, hvalue.trans (by decide)⟩

end AiDeck.Network
