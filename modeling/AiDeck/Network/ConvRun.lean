import Mathlib
import AiDeck.Network.ConvTile

/-! # The convolution layers, tile by tile

Before each tile the cluster has the parts that the last one left there, and the tiles of the
output up to it are done. -/
namespace AiDeck.Network

open AiDeck.Lib AiDeck.Lib.Cores AiDeck.Lib.Copies AiDeck.Lib.Convolution AiDeck.Lib.Tiles

/-! ## What is loaded for a tile -/

section
variable {c : ConvLayer} {numCores l1 outMult outShift : Nat} {a : LayerArgs} {i : TileIndex}
  {x w m m' : Memory}

theorem ConvLayer.dmaCopyFactor_size {l2Off l1Offset : Nat} :
    (c.dmaCopyFactor l1 a l2Off l1Offset i).size = 8 * c.filters.ySize i.nof := by
  change 1 * 1 * (c.filters.ySize i.nof * 8) = _
  ring

theorem ConvLayer.HoldsW.congr (hw : c.HoldsW l1 w i m) (h : c.Proper numCores)
    (hm : ∀ z, l1 + c.l1WOffset ≤ z → z < l1 + c.l1Im2colOffset → m' z = m z) :
    c.HoldsW l1 w i m' := by
  obtain ⟨-, -, hweights, hk, hlambda, -⟩ := h.layout i
  refine ⟨fun q hq => ?_, fun q hq => ?_, fun q hq => ?_⟩
  · rw [← hw.weights q hq]
    exact hm _ (by omega) (by omega)
  · rw [← hw.k q hq]
    exact hm _ (by omega) (by omega)
  · rw [← hw.lambda q hq]
    exact hm _ (by omega) (by omega)

/-- The weights of a tile's filters and their factors, one after the other. -/
theorem ConvLayer.Proper.load_weights (h : c.Proper numCores) (hi : c.IsTile i)
    (hs : Source l1 a.l2Weights c.weightsSize w m) (hm' : m' = run ([c.dmaCopyW l1 a c.l1WOffset i,
      c.dmaCopyFactor l1 a c.l2OffK c.l1KOffset i,
      c.dmaCopyFactor l1 a c.l2OffLambda c.l1LambdaOffset i].flatMap doryDmaMemcpyAsync) m) :
    c.HoldsW l1 w i m' ∧ OnlyBetween l1 c.l1WOffset c.l1Im2colOffset m m' := by
  obtain ⟨-, -, hweights, hk, hlambda, hwork⟩ := h.layout i
  have hfilters : i.nof * c.filters.yTile + c.filters.ySize i.nof ≤ c.nof :=
    h.tiling.nof ▸ Axis.tile_le hi.nof
  have hbytes : i.nof * c.filters.yTile * c.numCol + c.filters.ySize i.nof * c.numCol ≤
      c.nof * c.numCol := by
    rw [← Nat.add_mul]
    exact Nat.mul_le_mul_right _ hfilters
  have hoffK := h.off_k
  have hoffLambda := h.off_lambda
  have hend : c.weightsSize = c.l2OffLambda + 8 * c.nof := rfl
  have hsize := @Tiling.dmaCopyW_size c.toTiling l1 a i c.l1WOffset
  have hsize' := @ConvLayer.dmaCopyFactor_size c l1 a i
  have hext : ∀ l2Off l1Offset, (c.dmaCopyFactor l1 a l2Off l1Offset i).ext =
      a.l2Weights + (l2Off + 8 * (i.nof * c.filters.yTile)) := by
    intro l2Off l1Offset
    change a.l2Weights + l2Off + c.kTileSizeByteTransfer * i.nof = _
    rw [h.transfer]
    ring
  simp only [List.flatMap_cons, List.flatMap_nil, List.append_nil, run_append] at hm'
  set m₁ := run (doryDmaMemcpyAsync (c.dmaCopyW l1 a c.l1WOffset i)) m with hm₁
  set m₂ := run (doryDmaMemcpyAsync (c.dmaCopyFactor l1 a c.l2OffK c.l1KOffset i)) m₁ with hm₂
  obtain ⟨hloaded₁, hframe₁⟩ := hs.load c.l1KOffset rfl (Or.inr (Or.inl ⟨rfl, rfl⟩))
    (Tiling.dmaCopyW_ext h.tiling hi) (by omega) rfl (by omega) (by omega) hm₁
  have hs₁ := hs.after hframe₁ (by omega)
  obtain ⟨hloaded₂, hframe₂⟩ := hs₁.load c.l1LambdaOffset rfl (Or.inl ⟨rfl, rfl⟩)
    (hext _ _) (by rw [hsize']; omega) rfl (by rw [hsize']; omega) (by omega) hm₂
  have hs₂ := hs₁.after hframe₂ (by omega)
  obtain ⟨hloaded₃, hframe₃⟩ := hs₂.load c.l1Im2colOffset rfl (Or.inl ⟨rfl, rfl⟩)
    (hext _ _) (by rw [hsize']; omega) rfl (by rw [hsize']; omega) (by omega) hm'
  rw [hsize] at hloaded₁
  rw [hsize'] at hloaded₂ hloaded₃
  -- what is loaded later lies behind
  refine ⟨⟨fun q hq => ?_, fun q hq => ?_, hloaded₃⟩, fun z hz => ?_⟩
  · rw [hframe₃ _ (by omega), hframe₂ _ (by omega)]
    exact hloaded₁ q hq
  · rw [hframe₃ _ (by omega)]
    exact hloaded₂ q hq
  · rw [hframe₃ z (by omega), hframe₂ z (by omega), hframe₁ z (by omega)]

/-- **What has been loaded for a tile, or is still there, is what the kernel needs.** -/
theorem ConvLayer.Proper.loads (h : c.Proper numCores) (hi : c.IsTile i)
    (hsx : Source l1 a.l2Input (c.xH * c.xW * c.nif) x m)
    (hsw : Source l1 a.l2Weights c.weightsSize w m) {e : TileIndex}
    (hx : i.nif = e.nif → i.w = e.w → i.h = e.h → c.HoldsX l1 x i m)
    (hw : i.nif = e.nif → i.nof = e.nof → c.HoldsW l1 w i m)
    (hm' : m' = run (((c.tiled numCores l1 outMult outShift a).loads i e).flatMap
      doryDmaMemcpyAsync) m) :
    c.HoldsX l1 x i m' ∧ c.HoldsW l1 w i m' ∧ ∀ z, z ∉ cells l1 l1BufferSize → m' z = m z := by
  obtain ⟨hxEnd, hyEnd, hwEnd, hkEnd, hlambdaEnd, hworkEnd⟩ := h.layout i
  rw [show ((c.tiled numCores l1 outMult outShift a).loads i e).flatMap doryDmaMemcpyAsync = _ from
    List.flatMap_append, run_append] at hm'
  set m₁ := run ((if i.nif ≠ e.nif ∨ i.w ≠ e.w ∨ i.h ≠ e.h then
    [c.dmaCopyX l1 a i] else []).flatMap doryDmaMemcpyAsync) m with hm₁
  have hinput : c.HoldsX l1 x i m₁ ∧ OnlyBetween l1 0 c.l1YOffset m m₁ := by
    split at hm₁
    next hload =>
      rw [List.flatMap_singleton] at hm₁
      exact hsx.load_x h.tiling hi hm₁
    next hkept =>
      rw [not_or, not_or, not_not, not_not, not_not] at hkept
      exact ⟨hm₁ ▸ hx hkept.1 hkept.2.1 hkept.2.2, fun z _ => by rw [hm₁]; rfl⟩
  have hsw₁ := hsw.after hinput.2 (by omega)
  have hweights : c.HoldsW l1 w i m' ∧ OnlyBetween l1 c.l1WOffset c.l1Im2colOffset m₁ m' := by
    split at hm'
    next hload => exact h.load_weights hi hsw₁ hm'
    next hkept =>
      rw [not_or, not_not, not_not] at hkept
      have hw₁ : c.HoldsW l1 w i m₁ := (hw hkept.1 hkept.2).congr h fun z hz _ =>
        hinput.2 z (by omega)
      exact ⟨hm' ▸ hw₁, fun z _ => by rw [hm']; rfl⟩
  refine ⟨hinput.1.congr h.tiling fun z hz hz' => hweights.2 z (by omega), hweights.1,
    fun z hz => ?_⟩
  rw [mem_cells] at hz
  rw [hweights.2 z (by omega), hinput.2 z (by omega)]

/-- All copies fit in the fields of a command. -/
theorem ConvLayer.Proper.loads_valid (h : c.Proper numCores) (hi : c.IsTile i) (e : TileIndex) :
    ∀ d ∈ (c.tiled numCores l1 outMult outShift a).loads i e, d.Valid := by
  obtain ⟨hx, hy, hweights, hk, hlambda, hwork⟩ := h.layout i
  have hend : l1BufferSize < 2 ^ 16 := by decide
  obtain ⟨hnumCol, hfs⟩ := h.small
  have hX : (c.dmaCopyX l1 a i).Valid := h.tiling.dmaCopyX_valid i
  have hY : (c.dmaCopyY l1 a i).Valid := h.tiling.dmaCopyY_valid hi
  have hfactor : ∀ l2Off l1Offset, (c.dmaCopyFactor l1 a l2Off l1Offset i).Valid := by
    intro l2Off l1Offset
    have hone : 1 < 2 ^ 16 := by decide
    refine ⟨Nat.two_pow_pos 16, hone, Nat.two_pow_pos 16, hone, ?_, ?_⟩
    · change c.filters.ySize i.nof * 8 < _
      omega
    · change (c.dmaCopyFactor l1 a l2Off l1Offset i).size < _
      rw [ConvLayer.dmaCopyFactor_size]
      omega
  intro d hd
  rcases List.mem_append.mp hd with hd | hd
  · split at hd
    next => exact List.mem_singleton.mp hd ▸ hX
    next => cases hd
  · split at hd
    next =>
      simp only [List.mem_cons, List.not_mem_nil, or_false] at hd
      rcases hd with rfl | rfl | rfl
      · refine ⟨hnumCol, hY.length1dCopy, hX.stride1d, hfs, hX.stride1d, ?_⟩
        change (c.dmaCopyW l1 a c.l1WOffset i).size < _
        rw [Tiling.dmaCopyW_size]
        omega
      · exact hfactor _ _
      · exact hfactor _ _
    next => cases hd

end

/-! ## A tile -/

section
variable {c : ConvLayer} {l1 outMult outShift k iter : Nat} {a : LayerArgs} {t : LayerTable}
  {x x' w w' m m₀ : Memory}

/-- What holds when some tiles are done: of the last, input and weights are still there. -/
structure ConvLayer.Done (c : ConvLayer) (l1 outShift : Nat) (a : LayerArgs) (x w m₀ : Memory)
    (iter : Nat) (m : Memory) : Prop where
  holdsX : ∀ j, iter = j + 1 → c.HoldsX l1 x (tileAt c.lines.tiles c.columns.tiles j) m
  holdsW : ∀ j, iter = j + 1 → c.HoldsW l1 w (tileAt c.lines.tiles c.columns.tiles j) m
  done : c.toTiling.Done l1 a (c.result outShift x w) m₀ iter m

/-- The memory of a layer is its own. -/
structure ConvLayer.Space (c : ConvLayer) (l1 : Nat) (a : LayerArgs) : Prop where
  clear : c.Clear l1 a
  x_l1 : a.l2Input + c.xH * c.xW * c.nif ≤ l1 ∨ l1 + l1BufferSize ≤ a.l2Input
  x_y : a.l2Input + c.xH * c.xW * c.nif ≤ a.l2Output ∨
    a.l2Output + c.yH * c.yW * c.nof ≤ a.l2Input
  w_l1 : a.l2Weights + c.weightsSize ≤ l1 ∨ l1 + l1BufferSize ≤ a.l2Weights
  w_y : a.l2Weights + c.weightsSize ≤ a.l2Output ∨ a.l2Output + c.yH * c.yW * c.nof ≤ a.l2Weights

/-- Of what the last tile left there as much is needed again as is not loaded. -/
theorem ConvLayer.Done.kept (hdone : c.Done l1 outShift a x w m₀ iter m) {i e : TileIndex}
    (hi : i = tileAt c.lines.tiles c.columns.tiles iter)
    (he : e = tileBefore (tileAt c.lines.tiles c.columns.tiles) ⟨1, 1, 1, 1⟩ iter)
    (hnif : i.nif = e.nif) : (i.w = e.w → i.h = e.h → c.HoldsX l1 x i m) ∧
      (i.nof = e.nof → c.HoldsW l1 w i m) := by
  cases iter with
  | zero =>
    rw [hi, he] at hnif
    cases hnif
  | succ iter =>
    have hx := hdone.holdsX iter rfl
    obtain ⟨hweights, hk, hlambda⟩ := hdone.holdsW iter rfl
    change e = tileAt c.lines.tiles c.columns.tiles iter at he
    rw [← he] at hx hweights hk hlambda
    refine ⟨fun hcolumn hline => ?_, fun hfilter => ?_⟩
    · unfold Tiling.HoldsX
      rw [hcolumn, hline]
      exact hx
    · rw [← hfilter] at hweights hk hlambda
      exact ⟨hweights, hk, hlambda⟩

/-- **A tile**: what it needs is loaded, the kernel computes it, and it is stored beside those
that are done. -/
theorem ConvLayer.Done.step (h : c.Proper (2 ^ k)) (hspace : c.Space l1 a)
    (hiter : iter < c.totalTiles)
    (hdone : c.Done l1 outShift a (fun q => m₀ (a.l2Input + q)) (fun q => m₀ (a.l2Weights + q)) m₀
      iter m) :
    TileStep (c.tiled (2 ^ k) l1 outMult outShift a) (tileAt c.lines.tiles c.columns.tiles iter)
      (tileBefore (tileAt c.lines.tiles c.columns.tiles) ⟨1, 1, 1, 1⟩ iter) m
      (c.Done l1 outShift a (fun q => m₀ (a.l2Input + q)) (fun q => m₀ (a.l2Weights + q)) m₀
        (iter + 1)) := by
  have hi := h.tiling.isTile hiter
  set i := tileAt c.lines.tiles c.columns.tiles iter with hidef
  set e := tileBefore (tileAt c.lines.tiles c.columns.tiles) ⟨1, 1, 1, 1⟩ iter with hedef
  obtain ⟨hclear, hxl1, hxy, hwl1, hwy⟩ := hspace
  obtain ⟨hxEnd, hyEnd, hwEnd, hkEnd, hlambdaEnd, hworkEnd⟩ := h.layout i
  refine ⟨h.loads_valid hi _, h.tiling.dmaCopyY_valid hi, exists_pulpNnConvU8U8I8 _ _ _,
    fun m' hkernel => ?_⟩
  set m₁ := run (((c.tiled (2 ^ k) l1 outMult outShift a).loads i e).flatMap doryDmaMemcpyAsync) m
    with hm₁
  obtain ⟨hx, hw, hloads⟩ := h.loads hi (hdone.done.source hxl1 hxy) (hdone.done.source hwl1 hwy)
    (fun hnif => (hdone.kept hidef hedef hnif).1) (fun hnif => (hdone.kept hidef hedef hnif).2) hm₁
  -- the kernel
  have hproper : (c.convArgs l1 outMult outShift i).Proper (2 ^ k) := c.convArgs_proper h hi
  have hvalue := pulpNnConvU8U8I8_value hproper hkernel
  have hframe : ∀ z, (z < l1 + c.l1YOffset ∨ l1 + c.l1WOffset ≤ z) →
      (z < l1 + c.l1Im2colOffset ∨ l1 + l1BufferSize ≤ z) → m' z = m₁ z := by
    intro z hz hz'
    refine pulpNnConvU8U8I8_frame hproper hkernel (fun hmem => ?_) fun hmem => ?_
    · change l1 + c.l1Im2colOffset ≤ z ∧ z < l1 + c.l1Im2colOffset + 2 * 2 ^ k * c.numCol at hmem
      omega
    · change l1 + c.l1YOffset ≤ z ∧ z < l1 + c.l1YOffset +
        c.lines.ySize i.h * c.columns.ySize i.w * c.filters.ySize i.nof at hmem
      omega
  -- the output
  have hkeeps : ∀ z, z ∉ cells l1 l1BufferSize → m' z = m z := fun z hz => by
    have hout := hz
    rw [mem_cells] at hout
    rw [hframe z (by omega) (by omega), hloads z hz]
  obtain ⟨hnext, hl1⟩ := hdone.done.step h.tiling hclear hiter hidef hkeeps
    (fun u hu v hv p hp => by
      rw [← ConvLayer.convArgs_result h hi hx hw hu hv hp]
      exact hvalue u hu v hv p hp)
  have hkept : ∀ z, l1 ≤ z → z < l1 + l1BufferSize →
      run (doryDmaMemcpyAsync (c.dmaCopyY l1 a i)) m' z = m' z := fun z hz hz' => hl1 z ⟨hz, hz'⟩
  refine ⟨fun j hj => ?_, fun j hj => ?_, hnext⟩
  · obtain rfl : iter = j := Nat.succ.inj hj
    exact hx.congr h.tiling fun z hz hz' =>
      (hkept z (by omega) (by omega)).trans (hframe z (by omega) (by omega))
  · obtain rfl : iter = j := Nat.succ.inj hj
    exact hw.congr h fun z hz hz' =>
      (hkept z (by omega) (by omega)).trans (hframe z (by omega) (by omega))

/-! ## The layer -/

theorem ConvLayer.result_congr {numCores : Nat} (h : c.Proper numCores)
    (hx : ∀ q < c.xH * c.xW * c.nif, x q = x' q) (hw : ∀ q < c.weightsSize, w q = w' q)
    {y z o : Nat} (ho : o < c.nof) :
    c.result outShift x w y z o = c.result outShift x' w' y z o := by
  have hend : c.weightsSize = c.l2OffLambda + 8 * c.nof := rfl
  have hoffK := h.off_k
  have hoffLambda := h.off_lambda
  have hfactor : ∀ off, off + 8 * c.nof ≤ c.weightsSize →
      int64At w (off + 8 * o) = int64At w' (off + 8 * o) := fun off hoff =>
    int64At_congr fun q hq => hw _ (by omega)
  unfold result
  rw [hfactor _ (by omega), hfactor _ (by omega)]
  congr 2
  refine convolve_congr (fun u _ v _ ch hch => padded_congr (fun y hy z hz => ?_) _ _)
    fun u hu v hv ch hch => ?_
  · exact hx _ (by rw [Nat.zero_add]; exact feature_lt hy hz hch)
  · have hplace : (u * c.columns.kernel + v) * c.nif + ch < c.numCol := feature_lt hu hv hch
    have hfilter : (o + 1) * c.numCol ≤ c.nof * c.numCol := Nat.mul_le_mul_right _ ho
    rw [Nat.add_one_mul] at hfilter
    exact hw _ (by omega)

/-- The loop over the tiles. -/
theorem bnReluConvolution_done (h : c.Proper (2 ^ k)) (hspace : c.Space l1 a) (m : Memory) :
    (∃ n, bnReluConvolution c (2 ^ k) l1 outMult outShift a m n) ∧
      ∀ n, bnReluConvolution c (2 ^ k) l1 outMult outShift a m n →
        c.Done l1 outShift a (fun q => m (a.l2Input + q)) (fun q => m (a.l2Weights + q)) m
          c.totalTiles n := by
  have hfirst : tileAt c.lines.tiles c.columns.tiles 0 = ⟨0, 0, 0, 0⟩ := tileAt_zero
  unfold bnReluConvolution
  rw [← hfirst]
  have hnext : ∀ iter, iter + 1 < (c.tiled (2 ^ k) l1 outMult outShift a).totalTiles →
      (c.tiled (2 ^ k) l1 outMult outShift a).next (tileAt c.lines.tiles c.columns.tiles iter) =
        tileAt c.lines.tiles c.columns.tiles (iter + 1) := fun iter _ =>
    nextTile_tileAt h.tiling.lines.tiles_pos h.tiling.columns.tiles_pos (Or.inl rfl)
  refine tileLoop_spec hnext (fun iter hiter m' hdone => hdone.step h hspace hiter) ?_
  exact ⟨fun j hj => absurd hj (Nat.succ_ne_zero j).symm,
    fun j hj => absurd hj (Nat.succ_ne_zero j).symm, .first⟩

/-- The layer is the one of the table, its weights included. -/
structure ConvLayer.Sized (c : ConvLayer) (t : LayerTable) : Prop where
  tiling : c.toTiling.Sized t
  layerWithWeights : t.layerWithWeights = true
  weightsSize : t.weightsSize = c.weightsSize

theorem ConvLayer.Sized.weights (ht : c.Sized t) : t.weights = c.weightsSize := by
  rw [LayerTable.weights, ht.layerWithWeights, if_pos rfl, ht.weightsSize]

theorem ConvLayer.Sized.space (ht : c.Sized t) (ha : a.Sound ⟨l1, l1BufferSize⟩ t) :
    c.Space l1 a := by
  have hclear := ht.tiling.clear ha
  obtain ⟨hxy, hxl1, -, -, hyw, hwl1⟩ := ha
  have hyw := hyw ht.layerWithWeights
  have hwl1 := hwl1 ht.layerWithWeights
  simp only [Region.Apart, LayerArgs.input, LayerArgs.output, LayerArgs.weights,
    ht.tiling.activationsSize, ht.tiling.activationsOutSize, ht.weights] at *
  exact ⟨hclear, hxl1, hxy, hwl1, hyw.symm⟩

/-- **A convolution layer computes its function**, tile by tile, on any power of two cores that
leave room for their windows. -/
theorem bnReluConvolution_computes (h : c.Proper (2 ^ k)) (ht : c.Sized t) :
    Computes ⟨l1, l1BufferSize⟩ t (c.function (c.result outShift))
      (bnReluConvolution c (2 ^ k) l1 outMult outShift) := by
  refine ht.tiling.computes h.tiling (fun x x' w w' hx hw y z o ho => ?_) fun a m ha => ?_
  · exact c.result_congr h hx (fun q hq => hw q (ht.weights ▸ hq)) ho
  · exact (bnReluConvolution_done h (ht.space ha) m).imp_right fun hdone n hn => (hdone n hn).done

end

end AiDeck.Network
