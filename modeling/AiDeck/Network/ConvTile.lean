import Mathlib
import AiDeck.Network.ConvLayer

/-! # A tile of a convolution layer

What a layer computes, and that the kernel computes a tile of it from what has been brought to
the cluster for the tile. -/
namespace AiDeck.Network

open AiDeck.Lib AiDeck.Lib.Cores AiDeck.Lib.Copies AiDeck.Lib.Convolution AiDeck.Lib.Tiles

/-! ## What a layer computes -/

section
variable (c : ConvLayer)

/-- The bytes of all weights and factors. -/
def ConvLayer.weightsSize : Nat := c.l2OffLambda + 8 * c.nof

/-- The output of filter `o` at a pixel, from the bytes of the input and of the weights. -/
def ConvLayer.result (outShift : Nat) (x w : Memory) (y z o : Nat) : UInt8 :=
  pulpNnBnQuantU8 (.ofInt (convolve c.lines.kernel c.columns.kernel c.nif
      (padded c.xH c.xW (featureAt x 0 c.xW c.nif))
      (featureAt w (o * c.numCol) c.columns.kernel c.nif)
      (y * c.lines.stride - c.lines.pad) (z * c.columns.stride - c.columns.pad)))
    (int64At w (c.l2OffK + 8 * o)) (int64At w (c.l2OffLambda + 8 * o)) (.ofNat outShift)

/-- The layer is cut into tiles, and what these need fits between its offset and the next. -/
@[mk_iff]
structure ConvLayer.Proper (numCores : Nat) : Prop where
  tiling : c.toTiling.Proper
  numCol_pos : 0 < c.numCol
  y_w : c.l1YOffset + c.lines.yTile * c.columns.yTile * c.filters.yTile ≤ c.l1WOffset
  w_k : c.l1WOffset + c.filters.yTile * c.numCol ≤ c.l1KOffset
  k_lambda : c.l1KOffset + 8 * c.filters.yTile ≤ c.l1LambdaOffset
  lambda_im2col : c.l1LambdaOffset + 8 * c.filters.yTile ≤ c.l1Im2colOffset
  im2col_end : c.l1Im2colOffset + 2 * numCores * c.numCol ≤ l1BufferSize
  off_k : c.nof * c.numCol ≤ c.l2OffK
  off_lambda : c.l2OffK + 8 * c.nof ≤ c.l2OffLambda
  transfer : c.kTileSizeByteTransfer = 8 * c.filters.yTile
  small : c.numCol < 2 ^ 16 ∧ c.fs < 2 ^ 16

instance (numCores : Nat) : Decidable (c.Proper numCores) :=
  decidable_of_iff' _ (c.proper_iff numCores)

/-- Fewer cores need less room. -/
theorem ConvLayer.Proper.mono {c : ConvLayer} {numCores numCores' : Nat} (h : c.Proper numCores)
    (hle : numCores' ≤ numCores) : c.Proper numCores' :=
  { h with
    im2col_end := (Nat.add_le_add_left (Nat.mul_le_mul_right _ (Nat.mul_le_mul_left 2 hle)) _).trans
      h.im2col_end }

end

/-! ## The memory of the cluster -/

section
variable {c : ConvLayer} {numCores l1 outMult outShift : Nat} {i : TileIndex}

/-- Where the parts of a tile end. -/
structure ConvLayer.Layout (c : ConvLayer) (numCores : Nat) (i : TileIndex) : Prop where
  x : c.lines.xSize i.h * c.columns.xSize i.w * c.nif ≤ c.l1YOffset
  y : c.l1YOffset + c.lines.ySize i.h * c.columns.ySize i.w * c.filters.ySize i.nof ≤ c.l1WOffset
  w : c.l1WOffset + c.filters.ySize i.nof * c.numCol ≤ c.l1KOffset
  k : c.l1KOffset + 8 * c.filters.ySize i.nof ≤ c.l1LambdaOffset
  lambda : c.l1LambdaOffset + 8 * c.filters.ySize i.nof ≤ c.l1Im2colOffset
  im2col : c.l1Im2colOffset + 2 * numCores * c.numCol ≤ l1BufferSize

theorem ConvLayer.Proper.layout (h : c.Proper numCores) (i : TileIndex) : c.Layout numCores i := by
  have hfilters := @Axis.Cuts.ySize_le _ _ i.nof h.tiling.filters
  exact ⟨h.tiling.xSize_le i, (Nat.add_le_add_left (h.tiling.ySize_le i) _).trans h.y_w,
    (Nat.add_le_add_left (Nat.mul_le_mul_right _ hfilters) _).trans h.w_k,
    (Nat.add_le_add_left (Nat.mul_le_mul_left _ hfilters) _).trans h.k_lambda,
    (Nat.add_le_add_left (Nat.mul_le_mul_left _ hfilters) _).trans h.lambda_im2col, h.im2col_end⟩

theorem ConvLayer.convArgs_proper (h : c.Proper numCores) (hi : c.IsTile i) :
    (c.convArgs l1 outMult outShift i).Proper numCores := by
  obtain ⟨hx, hy, hw, hk, hlambda, hwork⟩ := h.layout i
  constructor
  · rfl
  · exact h.numCol_pos
  · exact h.small.1
  · exact fun y hy hy' j hj => h.tiling.lines.window_inside hi.h hy hy' hj
  · exact fun x hx hx' j hj => h.tiling.columns.window_inside hi.w hx hx' hj
  all_goals
    simp only [ConvArgs.readCells, ConvArgs.inputCells, ConvArgs.outputCells, ConvArgs.workCells,
      Filters.cells, Set.disjoint_union_right]
  · refine ⟨cells_apart ?_, cells_apart ?_, cells_apart ?_, cells_apart ?_⟩ <;>
      simp only [convArgs, ConvArgs.numCol] <;> unfold Tiling.numCol Tiling.fs at * <;> omega
  · refine ⟨cells_apart ?_, cells_apart ?_, cells_apart ?_, cells_apart ?_⟩ <;>
      simp only [convArgs, ConvArgs.numCol] <;> unfold Tiling.numCol Tiling.fs at * <;> omega
  · refine cells_apart ?_
    simp only [convArgs, ConvArgs.numCol]
    unfold Tiling.numCol Tiling.fs at *
    omega

/-- The weights of the tile's filters and their factors are there. -/
structure ConvLayer.HoldsW (c : ConvLayer) (l1 : Nat) (w : Memory) (i : TileIndex) (m : Memory) :
    Prop where
  weights : ∀ q < c.filters.ySize i.nof * c.numCol,
    m (l1 + c.l1WOffset + q) = w (i.nof * c.filters.yTile * c.numCol + q)
  k : ∀ q < 8 * c.filters.ySize i.nof,
    m (l1 + c.l1KOffset + q) = w (c.l2OffK + 8 * (i.nof * c.filters.yTile) + q)
  lambda : ∀ q < 8 * c.filters.ySize i.nof,
    m (l1 + c.l1LambdaOffset + q) = w (c.l2OffLambda + 8 * (i.nof * c.filters.yTile) + q)

/-- **The kernel computes the tile of the layer.** -/
theorem ConvLayer.convArgs_result (h : c.Proper numCores) (hi : c.IsTile i) {x w m : Memory}
    (hx : c.HoldsX l1 x i m) (hw : c.HoldsW l1 w i m) {y z o : Nat} (hy : y < c.lines.ySize i.h)
    (hz : z < c.columns.ySize i.w) (ho : o < c.filters.ySize i.nof) :
    (c.convArgs l1 outMult outShift i).result m y z o = c.result outShift x w
      (i.h * c.lines.yTile + y) (i.w * c.columns.yTile + z) (i.nof * c.filters.yTile + o) := by
  have hsum : (c.convArgs l1 outMult outShift i).windowSum m y z o =
      convolve c.lines.kernel c.columns.kernel c.nif (padded c.xH c.xW (featureAt x 0 c.xW c.nif))
        (featureAt w ((i.nof * c.filters.yTile + o) * c.numCol) c.columns.kernel c.nif)
        ((i.h * c.lines.yTile + y : Nat) * c.lines.stride - c.lines.pad)
        ((i.w * c.columns.yTile + z : Nat) * c.columns.stride - c.columns.pad) := by
    rw [← convolve_tile h.tiling.lines h.tiling.columns hi.h hi.w hy hz hx]
    refine convolve_congr (fun _ _ _ _ _ _ => rfl) fun u hu v hv ch hch => ?_
    have hplace : (u * c.columns.kernel + v) * c.nif + ch < c.numCol := feature_lt hu hv hch
    have hfilter : (o + 1) * c.numCol ≤ c.filters.ySize i.nof * c.numCol :=
      Nat.mul_le_mul_right _ ho
    rw [Nat.add_one_mul] at hfilter
    have hweight := hw.weights (o * c.numCol + ((u * c.columns.kernel + v) * c.nif + ch)) (by omega)
    rw [← Nat.add_assoc] at hweight
    refine hweight.trans (congrArg w ?_)
    ring
  have hfactor : ∀ {l1Offset l2Off : Nat}, (∀ q < 8 * c.filters.ySize i.nof,
      m (l1 + l1Offset + q) = w (l2Off + 8 * (i.nof * c.filters.yTile) + q)) →
      int64At m (l1 + l1Offset + 8 * o) = int64At w (l2Off + 8 * (i.nof * c.filters.yTile + o)) := by
    intro l1Offset l2Off hall
    refine int64At_congr fun q hq => ?_
    rw [Nat.add_assoc, hall _ (by omega)]
    congr 1
    ring
  unfold ConvArgs.result Filters.quant
  rw [hsum, if_pos ⟨one_ne_zero, one_ne_zero⟩]
  change pulpNnBnQuantU8 _ (int64At m (l1 + c.l1KOffset + 8 * o))
    (int64At m (l1 + c.l1LambdaOffset + 8 * o)) _ = _
  rw [hfactor hw.k, hfactor hw.lambda]
  rfl

end

end AiDeck.Network
