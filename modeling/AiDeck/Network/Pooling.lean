import Mathlib
import AiDeck.Network.MaxPool
import AiDeck.Network.Tiling

/-! # The pooling layer

`layer1_Pooling` loads each tile of its input, whatever was there before, and has no weights. -/
namespace AiDeck.Network

open AiDeck.Lib AiDeck.Lib.Cores AiDeck.Lib.Copies AiDeck.Lib.Convolution AiDeck.Lib.Tiles

/-! ## The layer -/

section
variable (c : Tiling) (numCores l1Buffer : Nat) (a : LayerArgs)

/-- The call of `pulp_nn_maxpool_u8`. -/
def Tiling.maxpoolArgs (i : TileIndex) : MaxpoolArgs where
  pIn := l1Buffer
  pOut := l1Buffer + c.l1YOffset
  dimImInX := c.columns.xSize i.w
  dimImInY := c.lines.xSize i.h
  chImIn := c.nif
  dimImOutX := c.columns.ySize i.w
  dimImOutY := c.lines.ySize i.h
  dimKernelX := c.columns.kernel
  dimKernelY := c.lines.kernel
  paddingT := c.lines.padBefore i.h
  paddingL := c.columns.padBefore i.w
  strideX := c.columns.stride
  strideY := c.lines.stride

/-- The body of the loop over the tiles; the indices of all channels are counted up together. -/
def Tiling.pooled : TiledLayer where
  totalTiles := c.totalTiles
  next := nextTile c.lines.tiles c.columns.tiles 1
  loads load _ := [c.dmaCopyX l1Buffer a load]
  kernel load := pulpNnMaxpoolU8 (c.maxpoolArgs l1Buffer load) numCores
  store := c.dmaCopyY l1Buffer a

def pooling : Layer := fun a m n =>
  TileLoop (c.pooled numCores l1Buffer a) 0 ⟨0, 0, 0, 0⟩ ⟨0, 0, 0, 0⟩ m n

/-- The largest byte of the window of a pixel. -/
def Tiling.poolResult (x : Memory) (y z o : Nat) : UInt8 :=
  .ofNat ((poolWindow y c.lines.stride c.lines.pad c.lines.kernel c.xH ×ˢ
    poolWindow z c.columns.stride c.columns.pad c.columns.kernel c.xW).sup fun q =>
      (featureAt x 0 c.xW c.nif q.1 q.2 o).toNat)

/-- All channels are in one tile, and no window reaches out of the input. -/
@[mk_iff]
structure Tiling.Pools : Prop where
  tiling : c.Proper
  tiles : c.filters.tiles = 1
  channels : c.filters.yTileLast = c.nif
  nof : c.nof = c.nif
  lines_pad : c.lines.pad = 0
  columns_pad : c.columns.pad = 0
  lines_kernel : 0 < c.lines.kernel
  columns_kernel : 0 < c.columns.kernel
  lines_pos : 0 < c.lines.xTile ∧ 0 < c.lines.xTileLast
  columns_pos : 0 < c.columns.xTile ∧ 0 < c.columns.xTileLast
  length : c.columns.yTile * c.nif < 2 ^ 16

instance : Decidable c.Pools := decidable_of_iff' _ c.pools_iff

end

def layer1Pooling : Tiling where
  lines := {
    kernel := 2, stride := 2, pad := 0, tiles := 4, xTile := 12, xTileLast := 12,
    overlap := 0, yTile := 6, yTileLast := 6 }
  columns := {
    kernel := 2, stride := 2, pad := 0, tiles := 2, xTile := 76, xTileLast := 4,
    overlap := 0, yTile := 38, yTileLast := 2 }
  filters := plainAxis 1 32 32
  nif := 32
  nof := 32
  xH := 48
  xW := 80
  yH := 24
  yW := 40
  l1YOffset := 29192

/-! ## A tile -/

section
variable {i stride padding kernel dim p t y dimIn : Nat} {b : Axis}

theorem mem_poolWindow : p ∈ poolWindow i stride padding kernel dim ↔
    p < dim ∧ ∃ j < kernel, (p : Int) = i * stride - padding + j := by
  unfold poolWindow
  rw [Finset.mem_Ico, ← Nat.cast_mul]
  constructor
  · rintro ⟨hlow, hhigh⟩
    exact ⟨by omega, p + padding - i * stride, by omega, by omega⟩
  · rintro ⟨hdim, j, hj, hp⟩
    omega

/-- **The windows of a tile are those of the layer**, from where the tile starts. -/
theorem poolWindow_tile (h : b.Cuts dimIn) (ht : t < b.tiles) (hy : y < b.ySize t) :
    poolWindow (t * b.yTile + y) b.stride b.pad b.kernel dimIn =
      (poolWindow y b.stride (b.padBefore t) b.kernel (b.xSize t)).image
        (· + (b.xStart t).toNat) := by
  have hstart := Int.toNat_of_nonneg (h.xStart_nonneg ht)
  ext p
  rw [mem_poolWindow, Finset.mem_image]
  simp only [mem_poolWindow]
  push_cast
  constructor
  · rintro ⟨hdim, j, hj, hp⟩
    have hplace := h.place ht y j
    obtain ⟨hlow, hhigh⟩ := (h.place_iff ht hy hj).mpr ⟨by omega, by omega⟩
    exact ⟨p - (b.xStart t).toNat, ⟨by omega, j, hj, by omega⟩, by omega⟩
  · rintro ⟨q, ⟨hq, j, hj, hqj⟩, rfl⟩
    have hplace := h.place ht y j
    obtain ⟨hlow, hhigh⟩ := (h.place_iff ht hy hj).mp ⟨by omega, by omega⟩
    exact ⟨by omega, j, hj, by omega⟩

end

section
variable {c : Tiling} {l1 iter k : Nat} {a : LayerArgs} {i : TileIndex} {x x' m m' m₀ : Memory}

/-- Without padding a window that begins for a pixel of the output begins in the input. -/
theorem plain_window {b : Axis} {dimIn t y : Nat} (h : b.Cuts dimIn) (hpad : b.pad = 0)
    (hkernel : 0 < b.kernel) (ht : t < b.tiles) (hy : y < b.ySize t) :
    y * b.stride < b.xSize t := by
  have hbefore : b.padBefore t = 0 := Nat.eq_zero_of_le_zero (hpad ▸ b.padBefore_le t)
  have hafter : b.padAfter t = 0 := Nat.eq_zero_of_le_zero (hpad ▸ b.padAfter_le t)
  have hinside := (h.window_inside ht (y := y) (by omega) (by omega) hkernel).2
  rw [hbefore] at hinside
  push_cast [← @Nat.cast_lt Int]
  omega

theorem xSize_pos {b : Axis} {t : Nat} (hpos : 0 < b.xTile ∧ 0 < b.xTileLast) : 0 < b.xSize t := by
  unfold Axis.xSize
  split <;> omega

theorem Tiling.Pools.ySize (h : c.Pools) (hi : c.IsTile i) : c.filters.ySize i.nof = c.nif := by
  have hnof := hi.nof
  have htiles := h.tiles
  rw [Axis.ySize, if_pos (by omega), h.channels]

/-- Where the tiles of input and output end. -/
theorem Tiling.Pools.ends (h : c.Pools) (hi : c.IsTile i) :
    c.lines.xSize i.h * c.columns.xSize i.w * c.nif ≤ c.l1YOffset ∧
      c.l1YOffset + c.lines.ySize i.h * c.columns.ySize i.w * c.nif ≤ l1BufferSize := by
  have hsize := h.tiling.ySize_le i
  rw [h.ySize hi] at hsize
  have := h.tiling.y_end
  exact ⟨h.tiling.xSize_le i, by omega⟩

theorem Tiling.Pools.proper (h : c.Pools) (hi : c.IsTile i) : (c.maxpoolArgs l1 i).Proper := by
  obtain ⟨hxEnd, hyEnd⟩ := h.ends hi
  have hlines : c.lines.padBefore i.h = 0 :=
    Nat.eq_zero_of_le_zero (h.lines_pad ▸ c.lines.padBefore_le i.h)
  have hcolumns : c.columns.padBefore i.w = 0 :=
    Nat.eq_zero_of_le_zero (h.columns_pad ▸ c.columns.padBefore_le i.w)
  constructor
  · exact Or.inl (Nat.add_le_add_left hxEnd _)
  · exact lt_of_le_of_lt (Nat.mul_le_mul_right _ h.tiling.columns.ySize_le) h.length
  · exact fun z hz => Nat.lt_add_right _
      (plain_window h.tiling.columns h.columns_pad h.columns_kernel hi.w hz)
  · exact fun y hy => Nat.lt_add_right _
      (plain_window h.tiling.lines h.lines_pad h.lines_kernel hi.h hy)
  · exact xSize_pos h.columns_pos
  · exact xSize_pos h.lines_pos
  · exact hcolumns.trans_lt h.columns_kernel
  · exact hlines.trans_lt h.lines_kernel
  · exact Or.inr (hcolumns.trans_lt h.tiling.columns.stride_pos)

/-- **The kernel computes the tile of the layer.** -/
theorem Tiling.Pools.poolResult_tile (h : c.Pools) (hi : c.IsTile i) (hx : c.HoldsX l1 x i m)
    {y z o : Nat} (hy : y < c.lines.ySize i.h) (hz : z < c.columns.ySize i.w) (ho : o < c.nif) :
    (poolWindow y c.lines.stride (c.lines.padBefore i.h) c.lines.kernel (c.lines.xSize i.h) ×ˢ
      poolWindow z c.columns.stride (c.columns.padBefore i.w) c.columns.kernel
        (c.columns.xSize i.w)).sup (fun q =>
          (featureAt m l1 (c.columns.xSize i.w) c.nif q.1 q.2 o).toNat) =
      (poolWindow (i.h * c.lines.yTile + y) c.lines.stride c.lines.pad c.lines.kernel c.xH ×ˢ
        poolWindow (i.w * c.columns.yTile + z) c.columns.stride c.columns.pad c.columns.kernel
          c.xW).sup fun q => (featureAt x 0 c.xW c.nif q.1 q.2 o).toNat := by
  rw [poolWindow_tile h.tiling.lines hi.h hy, poolWindow_tile h.tiling.columns hi.w hz,
    Finset.sup_product_left, Finset.sup_product_left, Finset.sup_image]
  refine Finset.sup_congr rfl fun u hu => ?_
  rw [Function.comp_apply, Finset.sup_image]
  refine Finset.sup_congr rfl fun v hv => ?_
  rw [Function.comp_apply, hx u (mem_poolWindow.mp hu).1 v (mem_poolWindow.mp hv).1 o ho]

/-- **A tile**: it is loaded, the kernel computes it, and it is stored beside those that are
done. -/
theorem Tiling.Pools.step (h : c.Pools) (hclear : c.Clear l1 a)
    (hxl1 : a.l2Input + c.xH * c.xW * c.nif ≤ l1 ∨ l1 + l1BufferSize ≤ a.l2Input)
    (hxy : a.l2Input + c.xH * c.xW * c.nif ≤ a.l2Output ∨
      a.l2Output + c.yH * c.yW * c.nof ≤ a.l2Input) (hiter : iter < c.totalTiles) {e : TileIndex}
    (hdone : c.Done l1 a (c.poolResult fun q => m₀ (a.l2Input + q)) m₀ iter m) :
    TileStep (c.pooled (2 ^ k) l1 a) (tileAt c.lines.tiles c.columns.tiles iter) e m
      (c.Done l1 a (c.poolResult fun q => m₀ (a.l2Input + q)) m₀ (iter + 1)) := by
  have hi := h.tiling.isTile hiter
  set i := tileAt c.lines.tiles c.columns.tiles iter with hidef
  obtain ⟨hxEnd, hyEnd⟩ := h.ends hi
  have hproper : (c.maxpoolArgs l1 i).Proper := h.proper hi
  refine ⟨fun d hd => List.mem_singleton.mp hd ▸ h.tiling.dmaCopyX_valid i,
    h.tiling.dmaCopyY_valid hi, exists_pulpNnMaxpoolU8 _ _ _, fun m' hkernel => ?_⟩
  set m₁ := run (((c.pooled (2 ^ k) l1 a).loads i e).flatMap doryDmaMemcpyAsync) m with hm₁
  rw [show ((c.pooled (2 ^ k) l1 a).loads i e).flatMap doryDmaMemcpyAsync =
    doryDmaMemcpyAsync (c.dmaCopyX l1 a i) from List.flatMap_singleton _ _] at hm₁
  obtain ⟨hx, hloads⟩ := (hdone.source hxl1 hxy).load_x h.tiling hi hm₁
  have hkeeps : ∀ z, z ∉ cells l1 l1BufferSize → m' z = m z := by
    intro z hz
    rw [mem_cells] at hz
    rw [pulpNnMaxpoolU8_frame hproper hkernel (fun hmem => ?_) fun hmem => ?_, hloads z (by omega)]
    · change l1 ≤ z ∧ z < l1 + c.lines.xSize i.h * c.columns.xSize i.w * c.nif at hmem
      omega
    · change l1 + c.l1YOffset ≤ z ∧
        z < l1 + c.l1YOffset + c.lines.ySize i.h * c.columns.ySize i.w * c.nif at hmem
      omega
  refine (hdone.step h.tiling hclear hiter hidef hkeeps fun u hu v hv p hp => ?_).1
  · rw [h.ySize hi] at hp ⊢
    have hvalue := pulpNnMaxpoolU8_value hproper hkernel u hu v hv p hp
    have hfilter : i.nof * c.filters.yTile + p = p := by
      have := hi.nof
      have := h.tiles
      rw [show i.nof = 0 by omega]
      omega
    rw [hfilter, poolResult, ← h.poolResult_tile hi hx hu hv hp]
    exact (UInt8.ofNat_toNat).symm.trans (congrArg UInt8.ofNat hvalue)

/-! ## The layer computes its function -/

theorem Tiling.Pools.poolResult_congr (h : c.Pools) (hx : ∀ q < c.xH * c.xW * c.nif, x q = x' q)
    {y z o : Nat} (ho : o < c.nof) : c.poolResult x y z o = c.poolResult x' y z o := by
  unfold poolResult
  congr 1
  refine Finset.sup_congr rfl fun q hq => ?_
  obtain ⟨hline, hcolumn⟩ := Finset.mem_product.mp hq
  have hlt := feature_lt (mem_poolWindow.mp hline).1 (mem_poolWindow.mp hcolumn).1 (h.nof ▸ ho)
  unfold featureAt
  rw [Nat.zero_add, hx _ hlt]

/-- **The pooling layer computes its function**, tile by tile, on any power of two cores. -/
theorem pooling_computes {t : LayerTable} (h : c.Pools) (ht : c.Sized t) :
    Computes ⟨l1, l1BufferSize⟩ t (c.function fun x _ => c.poolResult x) (pooling c (2 ^ k) l1) := by
  refine ht.computes h.tiling (fun x x' w w' hx _ y z o ho => h.poolResult_congr hx ho)
    fun a m ha => ?_
  have hclear := ht.clear ha
  obtain ⟨hxy, hxl1, -⟩ := ha
  simp only [Region.Apart, LayerArgs.input, LayerArgs.output, ht.activationsSize,
    ht.activationsOutSize] at hxy hxl1
  have hnext : ∀ iter, iter + 1 < (c.pooled (2 ^ k) l1 a).totalTiles →
      (c.pooled (2 ^ k) l1 a).next (tileAt c.lines.tiles c.columns.tiles iter) =
        tileAt c.lines.tiles c.columns.tiles (iter + 1) := by
    intro iter hiter
    change _ < c.totalTiles at hiter
    rw [Tiling.totalTiles, h.tiles, Nat.one_mul] at hiter
    exact nextTile_tileAt h.tiling.lines.tiles_pos h.tiling.columns.tiles_pos (Or.inr hiter)
  unfold pooling
  rw [← show tileAt c.lines.tiles c.columns.tiles 0 = ⟨0, 0, 0, 0⟩ from tileAt_zero]
  exact tileLoop_spec hnext (fun iter hiter m' hdone => h.step hclear hxl1 hxy hiter hdone) .first

end

end AiDeck.Network
