import Mathlib
import AiDeck.Lib.Tiles
import AiDeck.Network.TileLoop

/-! # Layers cut into tiles

The input and the output of a layer are images that are cut along lines and columns, the
output along its channels too. A tile of the input is copied to the cluster whole, one of the
output back to its place, and the tiles that are done stay as they are. -/
namespace AiDeck.Network

open AiDeck.Lib AiDeck.Lib.Cores AiDeck.Lib.Copies AiDeck.Lib.Convolution AiDeck.Lib.Tiles

/-! ## The copies of a tile -/

/-- What `execute_layer_fork` allocates for a layer. -/
def l1BufferSize : Nat := 36700

/-- The sizes of a layer; `xTile` and `yTile` of its axes are the sizes of the tiles of the
input and of the output, those of the filters are both the size of a tile of weights. -/
structure Tiling where
  lines : Axis
  columns : Axis
  filters : Axis
  nif : Nat
  nof : Nat
  xH : Nat
  xW : Nat
  yH : Nat
  yW : Nat
  l1YOffset : Nat

/-- An axis that is cut without overlap. -/
def plainAxis (tiles tile tileLast : Nat) : Axis where
  kernel := 1
  stride := 1
  pad := 0
  tiles := tiles
  xTile := tile
  xTileLast := tileLast
  overlap := 0
  yTile := tile
  yTileLast := tileLast

section
variable (c : Tiling) (l1Buffer : Nat) (a : LayerArgs)

/-- `fs1 * fs2`. -/
def Tiling.fs : Nat := c.lines.kernel * c.columns.kernel

/-- The bytes of the weights of a filter. -/
def Tiling.numCol : Nat := c.fs * c.nif

def Tiling.totalTiles : Nat := c.filters.tiles * c.lines.tiles * c.columns.tiles

def Tiling.dmaCopyX (i : TileIndex) : DmaCopy where
  ext := doryGetTile3d a.l2Input i.h i.w i.nif c.lines.xTile c.columns.xTile c.nif c.xW c.nif
    c.lines.overlap c.columns.overlap 0 (if 0 < i.h then c.lines.pad else 0 : Nat)
    (if 0 < i.w then c.columns.pad else 0 : Nat) 0 8
  loc := l1Buffer
  stride2d := c.xW * c.nif
  numberOf2dCopies := c.lines.xSize i.h
  stride1d := c.nif
  numberOf1dCopies := c.columns.xSize i.w
  length1dCopy := c.nif
  dir := true

def Tiling.dmaCopyW (l1WOffset : Nat) (i : TileIndex) : DmaCopy where
  ext := doryGetTile3d a.l2Weights i.nof 0 i.nif c.filters.xTile c.fs c.nif c.fs c.nif 0 0 0 0 0 0 8
  loc := l1Buffer + l1WOffset
  stride2d := c.fs * c.nif
  numberOf2dCopies := c.filters.ySize i.nof
  stride1d := c.nif
  numberOf1dCopies := c.fs
  length1dCopy := c.nif
  dir := true

def Tiling.dmaCopyY (i : TileIndex) : DmaCopy where
  ext := doryGetTile3d a.l2Output i.h i.w i.nof c.lines.yTile c.columns.yTile c.filters.yTile c.yW
    c.nof 0 0 0 0 0 0 8
  loc := l1Buffer + c.l1YOffset
  stride2d := c.yW * c.nof
  numberOf2dCopies := c.lines.ySize i.h
  stride1d := c.nof
  numberOf1dCopies := c.columns.ySize i.w
  length1dCopy := c.filters.ySize i.nof
  dir := false

end

/-! ## The tiles make up the layer -/

/-- The tiles make up the layer, those of the input fit before those of the output and these in
the buffer, and all fit in the fields of a command. -/
@[mk_iff]
structure Tiling.Proper (c : Tiling) : Prop where
  lines : c.lines.Cuts c.xH
  columns : c.columns.Cuts c.xW
  filters : c.filters.Cuts c.nof
  plain : c.filters.xTile = c.filters.yTile
  yH : c.lines.dimOut = c.yH
  yW : c.columns.dimOut = c.yW
  nof : c.filters.dimOut = c.nof
  x_y : c.lines.xTile * c.columns.xTile * c.nif ≤ c.l1YOffset
  y_end : c.l1YOffset + c.lines.yTile * c.columns.yTile * c.filters.yTile ≤ l1BufferSize
  small : ∀ n ∈ [c.xW * c.nif, c.yW * c.nof, c.lines.xTile, c.columns.xTile, c.nif, c.lines.yTile,
    c.columns.yTile, c.nof], n < 2 ^ 16

instance (c : Tiling) : Decidable c.Proper := decidable_of_iff' _ c.proper_iff

/-- The tile is one of the layer. -/
structure Tiling.IsTile (c : Tiling) (i : TileIndex) : Prop where
  h : i.h < c.lines.tiles
  w : i.w < c.columns.tiles
  nof : i.nof < c.filters.tiles
  nif : i.nif = 0

/-- The place is one of the tile, by line, pixel and channel. -/
def Tiling.InTile (c : Tiling) (i : TileIndex) (y z o : Nat) : Prop :=
  (∃ u < c.lines.ySize i.h, y = i.h * c.lines.yTile + u) ∧
    (∃ v < c.columns.ySize i.w, z = i.w * c.columns.yTile + v) ∧
      ∃ p < c.filters.ySize i.nof, o = i.nof * c.filters.yTile + p

section
variable {c : Tiling} {l1 y z o iter : Nat} {a : LayerArgs} {i : TileIndex}

theorem Tiling.Proper.isTile (h : c.Proper) (hiter : iter < c.totalTiles) :
    c.IsTile (tileAt c.lines.tiles c.columns.tiles iter) := by
  have hlines : iter / c.columns.tiles < c.filters.tiles * c.lines.tiles :=
    Nat.div_lt_of_lt_mul (hiter.trans_eq (Nat.mul_comm _ _))
  exact ⟨Nat.mod_lt _ h.lines.tiles_pos, Nat.mod_lt _ h.columns.tiles_pos,
    Nat.div_lt_of_lt_mul (hlines.trans_eq (Nat.mul_comm _ _)), rfl⟩

theorem Tiling.InTile.lt (hin : c.InTile i y z o) (h : c.Proper) (hi : c.IsTile i) :
    y < c.yH ∧ z < c.yW ∧ o < c.nof := by
  obtain ⟨⟨u, hu, rfl⟩, ⟨v, hv, rfl⟩, ⟨p, hp, rfl⟩⟩ := hin
  have hline := h.yH ▸ Axis.tile_le hi.h
  have hcolumn := h.yW ▸ Axis.tile_le hi.w
  have hfilter := h.nof ▸ Axis.tile_le hi.nof
  omega

/-- Each byte of the output is in a tile. -/
theorem Tiling.Proper.exists_inTile (h : c.Proper) (hy : y < c.yH) (hz : z < c.yW)
    (ho : o < c.nof) :
    ∃ iter < c.totalTiles, c.InTile (tileAt c.lines.tiles c.columns.tiles iter) y z o := by
  obtain ⟨hline, hu⟩ := h.lines.tile_of (h.yH.symm ▸ hy)
  obtain ⟨hcolumn, hv⟩ := h.columns.tile_of (h.yW.symm ▸ hz)
  obtain ⟨hfilter, hp⟩ := h.filters.tile_of (h.nof.symm ▸ ho)
  obtain ⟨iter, hiter, htile⟩ := exists_tileAt hfilter hline hcolumn
  refine ⟨iter, hiter, ?_⟩
  rw [htile]
  exact ⟨⟨_, hu, (Nat.div_add_mod' _ _).symm⟩, ⟨_, hv, (Nat.div_add_mod' _ _).symm⟩, _, hp,
    (Nat.div_add_mod' _ _).symm⟩

/-- Where the tiles end in the memory of the cluster. -/
theorem Tiling.Proper.xSize_le (h : c.Proper) (i : TileIndex) :
    c.lines.xSize i.h * c.columns.xSize i.w * c.nif ≤ c.l1YOffset :=
  (Nat.mul_le_mul_right _ (Nat.mul_le_mul h.lines.xSize_le h.columns.xSize_le)).trans h.x_y

theorem Tiling.Proper.ySize_le (h : c.Proper) (i : TileIndex) :
    c.lines.ySize i.h * c.columns.ySize i.w * c.filters.ySize i.nof ≤
      c.lines.yTile * c.columns.yTile * c.filters.yTile :=
  Nat.mul_le_mul (Nat.mul_le_mul h.lines.ySize_le h.columns.ySize_le) h.filters.ySize_le

theorem Tiling.dmaCopyX_block (h : c.Proper) (hi : c.IsTile i) :
    (c.dmaCopyX l1 a i).Block a.l2Input c.xW c.nif (c.lines.xStart i.h).toNat
      (c.columns.xStart i.w).toNat 0 := by
  have hline := h.lines.xStart_nonneg hi.h
  have hcolumn := h.columns.xStart_nonneg hi.w
  have hstart : ∀ (b : Axis) (t : Nat), 0 ≤ b.xStart t → (t : Int) * (b.xTile - b.overlap) -
      ((if 0 < t then b.pad else 0 : Nat) : Int) = (b.xStart t).toNat := by
    intro b t hnonneg
    rw [Int.toNat_of_nonneg hnonneg, Axis.xStart]
  refine ⟨rfl, rfl, ?_, ?_, Nat.zero_add _ |>.le⟩
  · refine (doryGetTile3d_eq (hstart _ _ hline) (hstart _ _ hcolumn) (o := 0) ?_)
    rw [hi.nif]
    simp only [Nat.cast_zero, zero_mul, sub_zero]
  · exact h.columns.start_le hi.w

/-- Where a tile without overlap starts. -/
theorem plain_start (n tile : Nat) : (n : Int) * (tile - (0 : Int)) - 0 = (n * tile : Nat) := by
  push_cast
  ring

theorem Tiling.dmaCopyY_block (h : c.Proper) (hi : c.IsTile i) :
    (c.dmaCopyY l1 a i).Block a.l2Output c.yW c.nof (i.h * c.lines.yTile) (i.w * c.columns.yTile)
      (i.nof * c.filters.yTile) := by
  refine ⟨rfl, rfl, doryGetTile3d_eq (plain_start _ _) (plain_start _ _) (plain_start _ _), ?_, ?_⟩
  · exact h.yW ▸ Axis.tile_le hi.w
  · exact h.nof ▸ Axis.tile_le hi.nof

theorem Tiling.dmaCopyW_ext (h : c.Proper) (hi : c.IsTile i) {l1WOffset : Nat} :
    (c.dmaCopyW l1 a l1WOffset i).ext = a.l2Weights + i.nof * c.filters.yTile * c.numCol := by
  change doryGetTile3d a.l2Weights i.nof (0 : Nat) i.nif c.filters.xTile c.fs c.nif c.fs c.nif 0 0 0
    0 0 0 8 = _
  rw [hi.nif, doryGetTile3d_eq (plain_start _ _) (plain_start 0 c.fs) (plain_start 0 c.nif), h.plain,
    Tiling.numCol]
  ring

theorem Tiling.dmaCopyW_size {l1WOffset : Nat} :
    (c.dmaCopyW l1 a l1WOffset i).size = c.filters.ySize i.nof * c.numCol :=
  Nat.mul_assoc _ _ _

/-- The copies fit in the fields of a command. -/
theorem Tiling.Proper.dmaCopyX_valid (h : c.Proper) (i : TileIndex) :
    (c.dmaCopyX l1 a i).Valid := by
  have hx := h.xSize_le i
  have hy := h.y_end
  have hend : l1BufferSize < 2 ^ 16 := by decide
  have hsmall := h.small
  simp only [List.mem_cons, List.not_mem_nil, or_false, forall_eq_or_imp, forall_eq] at hsmall
  obtain ⟨hxW, hyW, hxLines, hxColumns, hnif, hyLines, hyColumns, hnof⟩ := hsmall
  exact ⟨hxW, lt_of_le_of_lt h.lines.xSize_le hxLines, hnif,
    lt_of_le_of_lt h.columns.xSize_le hxColumns, hnif, lt_of_le_of_lt hx (by omega)⟩

theorem Tiling.Proper.dmaCopyY_valid (h : c.Proper) (hi : c.IsTile i) :
    (c.dmaCopyY l1 a i).Valid := by
  have hsize := h.ySize_le i
  have hy := h.y_end
  have hfilter := h.nof ▸ Axis.tile_le hi.nof
  have hend : l1BufferSize < 2 ^ 16 := by decide
  have hsmall := h.small
  simp only [List.mem_cons, List.not_mem_nil, or_false, forall_eq_or_imp, forall_eq] at hsmall
  obtain ⟨hxW, hyW, hxLines, hxColumns, hnif, hyLines, hyColumns, hnof⟩ := hsmall
  refine ⟨hyW, lt_of_le_of_lt h.lines.ySize_le hyLines, hnof,
    lt_of_le_of_lt h.columns.ySize_le hyColumns, lt_of_le_of_lt (Nat.le_of_add_left_le hfilter) hnof,
    ?_⟩
  change c.lines.ySize i.h * c.columns.ySize i.w * c.filters.ySize i.nof < _
  omega

end

/-! ## What is loaded -/

/-- Bytes out of the memory of the cluster, as they were. -/
structure Source (l1 p size : Nat) (x m : Memory) : Prop where
  eq : ∀ q < size, m (p + q) = x q
  apart : p + size ≤ l1 ∨ l1 + l1BufferSize ≤ p

section
variable {c : Tiling} {l1 p size : Nat} {a : LayerArgs} {i : TileIndex} {x m m' : Memory}

/-- Nothing has changed but what lies between two offsets in the memory of the cluster. -/
def OnlyBetween (l1 lo hi : Nat) (m m' : Memory) : Prop :=
  ∀ z, (z < l1 + lo ∨ l1 + hi ≤ z) → m' z = m z

theorem Source.after {lo hi : Nat} (hs : Source l1 p size x m) (hm : OnlyBetween l1 lo hi m m')
    (hhi : hi ≤ l1BufferSize) : Source l1 p size x m' := by
  have hapart := hs.apart
  refine ⟨fun q hq => ?_, hapart⟩
  rw [hm _ (by omega), hs.eq q hq]

/-- A part without gaps is loaded. -/
theorem Source.load (hs : Source l1 p size x m) {d : DmaCopy} {off lo : Nat} (hi : Nat) (hdir : d.dir = true)
    (hdense : d.Dense) (hext : d.ext = p + off) (hoff : off + d.size ≤ size) (hloc : d.loc = l1 + lo)
    (hsize : lo + d.size ≤ hi) (hhi : hi ≤ l1BufferSize)
    (hm' : m' = run (doryDmaMemcpyAsync d) m) :
    (∀ q < d.size, m' (l1 + lo + q) = x (off + q)) ∧ OnlyBetween l1 lo hi m m' := by
  have hapart := hs.apart
  refine ⟨fun q hq => ?_, fun z hz => ?_⟩
  · rw [hm', ← hloc, run_load_dense hdir hdense (fun r hr => ?_) hq, hext, Nat.add_assoc,
      hs.eq _ (by omega)]
    rw [hext, mem_cells]
    omega
  · rw [hm']
    refine run_load_of_notMem hdir fun hmem => ?_
    rw [mem_cells] at hmem
    omega

/-- The tile of the input is there. -/
def Tiling.HoldsX (c : Tiling) (l1 : Nat) (x : Memory) (i : TileIndex) (m : Memory) : Prop :=
  ∀ u < c.lines.xSize i.h, ∀ v < c.columns.xSize i.w, ∀ ch < c.nif,
    featureAt m l1 (c.columns.xSize i.w) c.nif u v ch = featureAt x 0 c.xW c.nif
      (u + (c.lines.xStart i.h).toNat) (v + (c.columns.xStart i.w).toNat) ch

/-- **A tile of the input is loaded**, and nothing else changes. -/
theorem Source.load_x (hs : Source l1 a.l2Input (c.xH * c.xW * c.nif) x m) (h : c.Proper)
    (hi : c.IsTile i) (hm' : m' = run (doryDmaMemcpyAsync (c.dmaCopyX l1 a i)) m) :
    c.HoldsX l1 x i m' ∧ OnlyBetween l1 0 c.l1YOffset m m' := by
  have hx := h.xSize_le i
  have hy := h.y_end
  have hplace : ∀ u < c.lines.xSize i.h, ∀ v < c.columns.xSize i.w, ∀ ch < c.nif,
      (((c.lines.xStart i.h).toNat + u) * c.xW + ((c.columns.xStart i.w).toNat + v)) * c.nif +
        (0 + ch) < c.xH * c.xW * c.nif := by
    intro u hu v hv ch hch
    have hline := h.lines.start_le hi.h
    have hcolumn := h.columns.start_le hi.w
    exact feature_lt (by omega) (by omega) (by omega)
  refine ⟨fun u hu v hv ch hch => ?_, fun z hz => ?_⟩
  · have hblock : (c.dmaCopyX l1 a i).Block a.l2Input c.xW c.nif _ _ 0 := c.dmaCopyX_block h hi
    have hload := hblock.run_load (m := m) rfl (fun u hu v hv ch hch => ?_) hu hv hch
    · rw [hm']
      refine hload.trans ?_
      change m (a.l2Input + _ + _) = x (0 + _ + _)
      rw [Nat.add_assoc, hs.eq _ (hplace u hu v hv ch hch), Nat.zero_add, Nat.zero_add,
        Nat.add_comm u, Nat.add_comm v]
    · have hlt := hplace u hu v hv ch hch
      have happart := hs.apart
      change _ ∉ cells l1 (c.lines.xSize i.h * c.columns.xSize i.w * c.nif)
      rw [mem_cells]
      omega
  · rw [hm']
    refine run_load_of_notMem rfl fun hmem => ?_
    change l1 ≤ z ∧ z < l1 + c.lines.xSize i.h * c.columns.xSize i.w * c.nif at hmem
    omega

/-- The tile of the input stays while only cells behind it change. -/
theorem Tiling.HoldsX.congr (hx : c.HoldsX l1 x i m) (h : c.Proper)
    (hm : ∀ z, l1 ≤ z → z < l1 + c.l1YOffset → m' z = m z) : c.HoldsX l1 x i m' := by
  intro u hu v hv ch hch
  have hsize := h.xSize_le i
  have hlt := feature_lt hu hv hch
  rw [← hx u hu v hv ch hch]
  exact hm _ (by omega) (by omega)

end

/-! ## What is stored -/

/-- The output is away from the buffer. -/
def Tiling.Clear (c : Tiling) (l1 : Nat) (a : LayerArgs) : Prop :=
  a.l2Output + c.yH * c.yW * c.nof ≤ l1 ∨ l1 + l1BufferSize ≤ a.l2Output

/-- Some tiles are done, and nothing but the buffer and the output has changed. -/
structure Tiling.Done (c : Tiling) (l1 : Nat) (a : LayerArgs) (result : Nat → Nat → Nat → UInt8)
    (m₀ : Memory) (iter : Nat) (m : Memory) : Prop where
  output : ∀ j < iter, ∀ y z o, c.InTile (tileAt c.lines.tiles c.columns.tiles j) y z o →
    featureAt m a.l2Output c.yW c.nof y z o = result y z o
  frame : ∀ z, z ∉ cells l1 l1BufferSize → z ∉ cells a.l2Output (c.yH * c.yW * c.nof) → m z = m₀ z

section
variable {c : Tiling} {l1 iter : Nat} {a : LayerArgs} {i : TileIndex} {m m' m₀ : Memory}
  {result : Nat → Nat → Nat → UInt8}

theorem Tiling.Done.first : c.Done l1 a result m 0 m :=
  ⟨fun _ hj => absurd hj (Nat.not_lt_zero _), fun _ _ _ => rfl⟩

/-- A source that is away from the output is what it was. -/
theorem Tiling.Done.source (hdone : c.Done l1 a result m₀ iter m) {p size : Nat}
    (hl1 : p + size ≤ l1 ∨ l1 + l1BufferSize ≤ p)
    (hy : p + size ≤ a.l2Output ∨ a.l2Output + c.yH * c.yW * c.nof ≤ p) :
    Source l1 p size (fun q => m₀ (p + q)) m := by
  refine ⟨fun q hq => hdone.frame _ ?_ ?_, hl1⟩ <;> rw [mem_cells] <;> omega

/-- What is stored for a tile. -/
theorem Tiling.Clear.store (hclear : c.Clear l1 a) (h : c.Proper) (hi : c.IsTile i)
    (hm' : m' = run (doryDmaMemcpyAsync (c.dmaCopyY l1 a i)) m) :
    (∀ u < c.lines.ySize i.h, ∀ v < c.columns.ySize i.w, ∀ p < c.filters.ySize i.nof,
      featureAt m' a.l2Output c.yW c.nof (i.h * c.lines.yTile + u) (i.w * c.columns.yTile + v)
        (i.nof * c.filters.yTile + p) = featureAt m (l1 + c.l1YOffset) (c.columns.ySize i.w)
          (c.filters.ySize i.nof) u v p) ∧
    (∀ y z o, z < c.yW → o < c.nof → ¬ c.InTile i y z o →
      featureAt m' a.l2Output c.yW c.nof y z o = featureAt m a.l2Output c.yW c.nof y z o) ∧
    ∀ z, z ∉ cells a.l2Output (c.yH * c.yW * c.nof) → m' z = m z := by
  have hsize := h.ySize_le i
  have hend := h.y_end
  have hblock : (c.dmaCopyY l1 a i).Block a.l2Output c.yW c.nof _ _ _ := c.dmaCopyY_block h hi
  have hin : ∀ u < c.lines.ySize i.h, ∀ v < c.columns.ySize i.w, ∀ p < c.filters.ySize i.nof,
      c.InTile i (i.h * c.lines.yTile + u) (i.w * c.columns.yTile + v)
        (i.nof * c.filters.yTile + p) :=
    fun u hu v hv p hp => ⟨⟨u, hu, rfl⟩, ⟨v, hv, rfl⟩, p, hp, rfl⟩
  unfold Tiling.Clear at hclear
  refine ⟨fun u hu v hv p hp => ?_, fun y z o hz ho hnot => ?_, fun z hz => ?_⟩
  · rw [hm']
    refine hblock.run_store rfl (fun u hu v hv p hp => ?_) hu hv hp
    obtain ⟨hline, hpixel, hbyte⟩ := (hin u hu v hv p hp).lt h hi
    have hlt := feature_lt hline hpixel hbyte
    change _ ∉ cells (l1 + c.l1YOffset)
      (c.lines.ySize i.h * c.columns.ySize i.w * c.filters.ySize i.nof)
    rw [mem_cells]
    omega
  · rw [hm']
    refine hblock.run_store_of_ne rfl fun u hu v hv p hp heq => hnot ?_
    have hplace := hin u hu v hv p hp
    obtain ⟨hline, hpixel, hbyte⟩ := hplace.lt h hi
    rw [Nat.add_assoc, Nat.add_assoc] at heq
    obtain ⟨rfl, rfl, rfl⟩ := feature_inj hpixel hz hbyte ho (Nat.add_left_cancel heq)
    exact hplace
  · rw [hm']
    refine hblock.run_store_of_ne rfl fun u hu v hv p hp heq => hz ?_
    obtain ⟨hline, hpixel, hbyte⟩ := (hin u hu v hv p hp).lt h hi
    rw [← heq, Nat.add_assoc]
    exact add_mem_cells (feature_lt hline hpixel hbyte)

/-- **One more tile**: what the cores have computed in the buffer is stored beside the tiles that
are done. -/
theorem Tiling.Done.step (hdone : c.Done l1 a result m₀ iter m) (h : c.Proper)
    (hclear : c.Clear l1 a) (hiter : iter < c.totalTiles)
    (hi : i = tileAt c.lines.tiles c.columns.tiles iter)
    (hkeeps : ∀ z, z ∉ cells l1 l1BufferSize → m' z = m z)
    (htile : ∀ u < c.lines.ySize i.h, ∀ v < c.columns.ySize i.w, ∀ p < c.filters.ySize i.nof,
      featureAt m' (l1 + c.l1YOffset) (c.columns.ySize i.w) (c.filters.ySize i.nof) u v p =
        result (i.h * c.lines.yTile + u) (i.w * c.columns.yTile + v)
          (i.nof * c.filters.yTile + p)) :
    c.Done l1 a result m₀ (iter + 1) (run (doryDmaMemcpyAsync (c.dmaCopyY l1 a i)) m') ∧
      ∀ z ∈ cells l1 l1BufferSize, run (doryDmaMemcpyAsync (c.dmaCopyY l1 a i)) m' z = m' z := by
  have htileIndex : c.IsTile i := hi ▸ h.isTile hiter
  set m₂ := run (doryDmaMemcpyAsync (c.dmaCopyY l1 a i)) m' with hm₂
  obtain ⟨hstored, hother, hrest⟩ := hclear.store h htileIndex hm₂
  have hresult : ∀ y z o, c.InTile i y z o →
      featureAt m₂ a.l2Output c.yW c.nof y z o = result y z o := by
    rintro y z o ⟨⟨u, hu, rfl⟩, ⟨v, hv, rfl⟩, p, hp, rfl⟩
    rw [hstored u hu v hv p hp, htile u hu v hv p hp]
  unfold Tiling.Clear at hclear
  refine ⟨⟨fun j hj y z o hin => ?_, fun z hz hz' => ?_⟩, fun z hz => ?_⟩
  · by_cases hnew : c.InTile i y z o
    · exact hresult y z o hnew
    · rcases Nat.lt_or_ge j iter with hlt | hge
      · obtain ⟨hy, hz, ho⟩ := hin.lt h (h.isTile (hlt.trans hiter))
        have hplace := feature_lt hy hz ho
        rw [hother y z o hz ho hnew, ← hdone.output j hlt y z o hin]
        refine hkeeps _ ?_
        rw [mem_cells]
        omega
      · obtain rfl : j = iter := by omega
        exact absurd (hi ▸ hin) hnew
  · rw [hrest z hz', hkeeps z hz]
    exact hdone.frame z hz hz'
  · refine hrest z ?_
    rw [mem_cells] at hz ⊢
    omega

end

/-! ## The layer -/

/-- The output of a layer as a list of bytes, given each of them from input and weights. -/
def Tiling.function (c : Tiling) (result : Memory → Memory → Nat → Nat → Nat → UInt8)
    (x w : List UInt8) : List UInt8 :=
  (List.range (c.yH * c.yW * c.nof)).map fun q =>
    result (x.getD · 0) (w.getD · 0) (q / c.nof / c.yW) (q / c.nof % c.yW) (q % c.nof)

/-- The layer is the one of the table. -/
structure Tiling.Sized (c : Tiling) (t : LayerTable) : Prop where
  activationsSize : t.activationsSize = c.xH * c.xW * c.nif
  activationsOutSize : t.activationsOutSize = c.yH * c.yW * c.nof

section
variable {c : Tiling} {l1 : Nat} {t : LayerTable} {a : LayerArgs} {layer : Layer}
  {result : Memory → Memory → Nat → Nat → Nat → UInt8}

theorem Tiling.Sized.clear (ht : c.Sized t) (ha : a.Sound ⟨l1, l1BufferSize⟩ t) : c.Clear l1 a := by
  have houtput := ha.output_scratch
  simp only [Region.Apart, LayerArgs.output, ht.activationsOutSize] at houtput
  exact houtput

/-- **A layer whose tiles are all done has computed its function.** -/
theorem Tiling.Sized.computes (ht : c.Sized t) (h : c.Proper)
    (hcongr : ∀ x x' w w' : Memory, (∀ q < c.xH * c.xW * c.nif, x q = x' q) →
      (∀ q < t.weights, w q = w' q) → ∀ y z, ∀ o < c.nof, result x w y z o = result x' w' y z o)
    (hlayer : ∀ a m, a.Sound ⟨l1, l1BufferSize⟩ t → (∃ n, layer a m n) ∧
      ∀ n, layer a m n → c.Done l1 a (result (fun q => m (a.l2Input + q))
        (fun q => m (a.l2Weights + q))) m c.totalTiles n) :
    Computes ⟨l1, l1BufferSize⟩ t (c.function result) layer := by
  refine ⟨fun a m n ha hn => ?_, fun a m n ha hn z hz hz' => ?_, fun a m ha => (hlayer a m ha).1⟩
  · have hdone := (hlayer a m ha).2 n hn
    refine List.ext_getElem (by simp [Tiling.function, ht.activationsOutSize]) fun q hq _ => ?_
    rw [Bytes.segment_length, ht.activationsOutSize] at hq
    have hpixel : q / c.nof < c.yH * c.yW := Nat.div_lt_of_lt_mul (hq.trans_eq (Nat.mul_comm _ _))
    have hnof : 0 < c.nof := Nat.pos_of_mul_pos_left (Nat.zero_lt_of_lt hq)
    have hyW : 0 < c.yW := Nat.pos_of_mul_pos_left (Nat.zero_lt_of_lt hpixel)
    have hy : q / c.nof / c.yW < c.yH := Nat.div_lt_of_lt_mul (hpixel.trans_eq (Nat.mul_comm _ _))
    have hz := Nat.mod_lt (q / c.nof) hyW
    have ho := Nat.mod_lt q hnof
    obtain ⟨iter, hiter, hin⟩ := h.exists_inTile hy hz ho
    have hresult := hdone.output iter hiter _ _ _ hin
    rw [featureAt, Nat.add_assoc, Nat.div_add_mod', Nat.div_add_mod'] at hresult
    rw [Bytes.segment_getElem, hresult]
    simp only [Tiling.function, List.getElem_map, List.getElem_range]
    refine hcongr _ _ _ _ (fun q hq => ?_) (fun q hq => ?_) _ _ _ ho
    · rw [ht.activationsSize, Bytes.segment_getD m 0 hq]
    · rw [Bytes.segment_getD m 0 hq]
  · have hdone := (hlayer a m ha).2 n hn
    refine hdone.frame z (fun hmem => hz' hmem) fun hmem => hz ?_
    change a.l2Output ≤ z ∧ z < a.l2Output + t.activationsOutSize
    rw [ht.activationsOutSize]
    exact hmem

end

end AiDeck.Network
