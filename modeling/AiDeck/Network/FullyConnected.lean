import Mathlib
import AiDeck.Network.Linear
import AiDeck.Network.Tiling

/-! # The fully connected layer

`layer8_FullyConnected` has one tile, whose input and weights are loaded like those of the
layers before, and stores words. -/
namespace AiDeck.Network

open AiDeck.Lib AiDeck.Lib.Cores AiDeck.Lib.Copies AiDeck.Lib.Convolution AiDeck.Lib.Tiles

/-! ## The layer -/

def layer8Tiling : Tiling where
  lines := plainAxis 1 1 1
  columns := plainAxis 1 1 1
  filters := plainAxis 1 4 4
  nif := 1920
  nof := 4
  xH := 1
  xW := 1
  yH := 1
  yW := 1
  l1YOffset := 1928

section
variable (numCores l1Buffer : Nat) (a : LayerArgs)

def dmaCopyBias : DmaCopy where
  ext := a.l2Weights + 7680
  loc := l1Buffer + 9656
  stride2d := 0
  numberOf2dCopies := 1
  stride1d := 0
  numberOf1dCopies := 1
  length1dCopy := 16
  dir := true

/-- `DMA_copy_y` of words. -/
def dmaCopySums (i : TileIndex) : DmaCopy where
  ext := doryGetTile3d a.l2Output i.h i.w i.nof 1 1 4 1 4 0 0 0 0 0 0 32
  loc := l1Buffer + 1928
  stride2d := 16
  numberOf2dCopies := 1
  stride1d := 16
  numberOf1dCopies := 1
  length1dCopy := 16
  dir := false

/-- The call of `pulp_nn_linear_u8_i32_i8`. -/
def linearArgs (i : TileIndex) : LinearArgs where
  pIn := l1Buffer
  pBias := some (l1Buffer + 9656 + i.nof * 16)
  pOut := l1Buffer + 1928
  pWeight := l1Buffer + 1952
  dimVec := 1920
  numONeurons := 4

/-- The body of the loop over the tiles. -/
def fullyConnected : TiledLayer where
  totalTiles := 1
  next := nextTile 1 1 0
  loads load exec :=
    (if load.nif ≠ exec.nif ∨ load.w ≠ exec.w ∨ load.h ≠ exec.h then
      [layer8Tiling.dmaCopyX l1Buffer a load] else []) ++
    (if load.nif ≠ exec.nif ∨ load.nof ≠ exec.nof then
      [layer8Tiling.dmaCopyW l1Buffer a 1952 load] else [])
  kernel load := pulpNnLinearU8I32I8 (linearArgs l1Buffer load) numCores
  store := dmaCopySums l1Buffer a

/-- The biases are loaded before the loop. -/
def layer8FullyConnected : Layer := fun a m n =>
  (dmaCopyBias l1Buffer a).Valid ∧
    TileLoop (fullyConnected numCores l1Buffer a) 0 ⟨0, 0, 0, 0⟩ ⟨1, 1, 1, 1⟩
      (run (doryDmaMemcpyAsync (dmaCopyBias l1Buffer a)) m) n

/-- The sum of a neuron, from the bytes of the input and of the weights. -/
def neuronSum (x w : Memory) (i : Nat) : Int32 :=
  int32At w (7680 + 4 * i) + .ofInt (Dot.total x (fun q => w (i * 1920 + q)) 1920)

/-- The output of the layer, four words. -/
def fullyConnectedFunction (x w : List UInt8) : List UInt8 :=
  (List.range 4).flatMap fun i =>
    Bytes.toLE32 (neuronSum (x.getD · 0) (w.getD · 0) i).toUInt32

end

/-! ## Its only tile -/

section
variable {l1 k : Nat} {a : LayerArgs} {m m' m₀ : Memory}

theorem layer8Tiling_proper : layer8Tiling.Proper := by decide

theorem layer8Tiling_isTile : layer8Tiling.IsTile ⟨0, 0, 0, 0⟩ := by
  constructor <;> decide

/-- Up to eight cores do four neurons. -/
theorem linearArgs_done (hk : k ≤ 3) (i : TileIndex) : (linearArgs l1 i).done (2 ^ k) = 4 := by
  change doneNeurons (coreChunk (2 ^ k).log2 (2 ^ k) 4) 4 = 4
  interval_cases k <;> decide

theorem linearArgs_disjoint (hk : k ≤ 3) : Disjoint
    ((linearArgs l1 ⟨0, 0, 0, 0⟩).outputCells (2 ^ k))
    ((linearArgs l1 ⟨0, 0, 0, 0⟩).readCells (2 ^ k)) := by
  unfold LinearArgs.outputCells LinearArgs.readCells
  rw [linearArgs_done hk]
  refine Set.disjoint_union_right.mpr ⟨cells_apart ?_, Set.disjoint_union_right.mpr
    ⟨cells_apart ?_, Set.disjoint_left.mpr ?_⟩⟩
  · change l1 + 1928 + 4 * 4 ≤ l1 ∨ l1 + 1920 ≤ l1 + 1928
    omega
  · change l1 + 1928 + 4 * 4 ≤ l1 + 1952 ∨ _
    omega
  · rintro z hz ⟨pBias, hbias, hz'⟩
    obtain rfl : l1 + 9656 + 0 * 16 = pBias := Option.some.inj hbias
    change l1 + 1928 ≤ z ∧ z < l1 + 1928 + 4 * 4 at hz
    rw [mem_cells] at hz'
    omega

/-- What is in the memory of the cluster before the kernel runs. -/
structure HoldsAll (l1 : Nat) (x w m : Memory) : Prop where
  x : ∀ q < 1920, m (l1 + q) = x q
  weights : ∀ q < 7680, m (l1 + 1952 + q) = w q
  bias : ∀ q < 16, m (l1 + 9656 + q) = w (7680 + q)

/-- What the copies of the only tile move. -/
theorem dmaCopyBias_size : (dmaCopyBias l1 a).size = 16 := by
  simp [DmaCopy.size, dmaCopyBias]

theorem dmaCopySums_size {i : TileIndex} : (dmaCopySums l1 a i).size = 16 := by
  simp [DmaCopy.size, dmaCopySums]

theorem layer8Tiling_dmaCopyW_size : (layer8Tiling.dmaCopyW l1 a 1952 ⟨0, 0, 0, 0⟩).size = 7680 := by
  rw [Tiling.dmaCopyW_size]
  decide

theorem layer8Tiling_dmaCopyW_ext :
    (layer8Tiling.dmaCopyW l1 a 1952 ⟨0, 0, 0, 0⟩).ext = a.l2Weights + 0 := by
  rw [Tiling.dmaCopyW_ext layer8Tiling_proper layer8Tiling_isTile, Nat.zero_mul, Nat.zero_mul]

theorem dmaCopySums_ext : (dmaCopySums l1 a ⟨0, 0, 0, 0⟩).ext = a.l2Output := by
  simp [dmaCopySums, doryGetTile3d]

theorem loads_all {x w : Memory} (hsx : Source l1 a.l2Input 1920 x m)
    (hsw : Source l1 a.l2Weights 7696 w m)
    (hm' : m' = run (((fullyConnected (2 ^ k) l1 a).loads ⟨0, 0, 0, 0⟩ ⟨1, 1, 1, 1⟩).flatMap
      doryDmaMemcpyAsync) (run (doryDmaMemcpyAsync (dmaCopyBias l1 a)) m)) :
    HoldsAll l1 x w m' ∧ ∀ z, z ∉ cells l1 l1BufferSize → m' z = m z := by
  have hloads : (fullyConnected (2 ^ k) l1 a).loads ⟨0, 0, 0, 0⟩ ⟨1, 1, 1, 1⟩ =
      [layer8Tiling.dmaCopyX l1 a ⟨0, 0, 0, 0⟩, layer8Tiling.dmaCopyW l1 a 1952 ⟨0, 0, 0, 0⟩] := rfl
  have hend : l1BufferSize = 36700 := rfl
  have hy : layer8Tiling.l1YOffset = 1928 := rfl
  have hsize := @dmaCopyBias_size l1 a
  have hsize' := @layer8Tiling_dmaCopyW_size l1 a
  rw [hloads] at hm'
  simp only [List.flatMap_cons, List.flatMap_nil, List.append_nil, run_append] at hm'
  set m₁ := run (doryDmaMemcpyAsync (dmaCopyBias l1 a)) m with hm₁
  set m₂ := run (doryDmaMemcpyAsync (layer8Tiling.dmaCopyX l1 a ⟨0, 0, 0, 0⟩)) m₁ with hm₂
  obtain ⟨hbias, hframe₁⟩ := hsw.load 9672 rfl (Or.inl ⟨rfl, rfl⟩) rfl (by omega) rfl
    (by omega) (by omega) hm₁
  have hsx₁ := hsx.after hframe₁ (by omega)
  have hsw₁ := hsw.after hframe₁ (by omega)
  obtain ⟨hx, hframe₂⟩ := hsx₁.load_x layer8Tiling_proper layer8Tiling_isTile hm₂
  rw [hy] at hframe₂
  have hsw₂ := hsw₁.after hframe₂ (by omega)
  obtain ⟨hweights, hframe₃⟩ := hsw₂.load 9632 rfl (Or.inr (Or.inl ⟨rfl, rfl⟩))
    layer8Tiling_dmaCopyW_ext (by omega) rfl (by omega) (by omega) hm'
  rw [hsize] at hbias
  rw [hsize'] at hweights
  refine ⟨⟨fun q hq => ?_, fun q hq => ?_, fun q hq => ?_⟩, fun z hz => ?_⟩
  · have hstart : (layer8Tiling.lines.xStart 0).toNat = 0 ∧
        (layer8Tiling.columns.xStart 0).toNat = 0 := by decide
    have hpixel := hx 0 Nat.one_pos 0 Nat.one_pos q hq
    simp only [featureAt, hstart.1, hstart.2, Nat.zero_mul, Nat.zero_add, Nat.add_zero] at hpixel
    rw [hframe₃ _ (by omega), hpixel]
  · rw [hweights q hq, Nat.zero_add]
  · rw [hframe₃ _ (by omega), hframe₂ _ (by omega)]
    exact hbias q hq
  · rw [mem_cells] at hz
    rw [hframe₃ z (by omega), hframe₂ z (by omega), hframe₁ z (by omega)]

/-- **The kernel computes the sums of the layer.** -/
theorem linearArgs_result {x w : Memory} (h : HoldsAll l1 x w m) {i : Nat} (hi : i < 4) :
    (linearArgs l1 ⟨0, 0, 0, 0⟩).result m i = neuronSum x w i := by
  have hbias : (linearArgs l1 ⟨0, 0, 0, 0⟩).bias m i = int32At w (7680 + 4 * i) := by
    change int32At m (l1 + 9656 + 0 * 16 + 4 * i) = _
    unfold int32At
    congr 2
    refine Bytes.segment_congr fun b hb => ?_
    rw [Nat.zero_mul, Nat.add_zero, Nat.add_assoc, h.bias _ (by omega), Nat.add_assoc]
  have htotal : Dot.total (fun q => m (l1 + q)) (fun q => m (l1 + 1952 + i * 1920 + q)) 1920 =
      Dot.total x (fun q => w (i * 1920 + q)) 1920 := by
    refine Dot.total_congr h.x fun q hq => ?_
    rw [Nat.add_assoc (l1 + 1952), h.weights _ (by omega)]
  change (linearArgs l1 ⟨0, 0, 0, 0⟩).bias m i + .ofInt (Dot.total (fun q => m (l1 + q))
    (fun q => m (l1 + 1952 + i * 1920 + q)) 1920) = _
  rw [hbias, htotal]
  rfl

/-- The words in memory are the bytes of the sums. -/
theorem segment_int32At (m : Memory) (p : Nat) :
    Bytes.segment m p 4 = Bytes.toLE32 (int32At m p).toUInt32 := by
  have hword := Bytes.toLE32_ofLE32 (Bytes.segment_length m p 4)
  exact hword.symm

/-! ## The layer computes its function -/

theorem neuronSum_congr {x x' w w' : Memory} (hx : ∀ q < 1920, x q = x' q)
    (hw : ∀ q < 7696, w q = w' q) {i : Nat} (hi : i < 4) : neuronSum x w i = neuronSum x' w' i := by
  unfold neuronSum
  rw [int32At_congr fun b hb => hw _ (by omega),
    Dot.total_congr hx fun q hq => hw _ (by omega)]

/-- What the only tile leaves behind. -/
structure Summed (l1 : Nat) (a : LayerArgs) (m n : Memory) : Prop where
  output : ∀ i < 4, Bytes.segment n (a.l2Output + i * 4) 4 = Bytes.toLE32
    (neuronSum (fun q => m (a.l2Input + q)) (fun q => m (a.l2Weights + q)) i).toUInt32
  frame : ∀ z, z ∉ cells l1 l1BufferSize → z ∉ cells a.l2Output 16 → n z = m z

theorem fullyConnected_step (hk : k ≤ 3)
    (hx : a.l2Input + 1920 ≤ l1 ∨ l1 + l1BufferSize ≤ a.l2Input)
    (hw : a.l2Weights + 7696 ≤ l1 ∨ l1 + l1BufferSize ≤ a.l2Weights)
    (hy : a.l2Output + 16 ≤ l1 ∨ l1 + l1BufferSize ≤ a.l2Output) :
    TileStep (fullyConnected (2 ^ k) l1 a) ⟨0, 0, 0, 0⟩ ⟨1, 1, 1, 1⟩
      (run (doryDmaMemcpyAsync (dmaCopyBias l1 a)) m) (Summed l1 a m) := by
  have hend : l1BufferSize = 36700 := rfl
  have hloc : (dmaCopySums l1 a ⟨0, 0, 0, 0⟩).loc = l1 + 1928 := rfl
  have hout : (linearArgs l1 ⟨0, 0, 0, 0⟩).pOut = l1 + 1928 := rfl
  refine ⟨fun d hd => ?_, ?_, exists_phase _ _, fun m' hkernel => ?_⟩
  · have hloads : (fullyConnected (2 ^ k) l1 a).loads ⟨0, 0, 0, 0⟩ ⟨1, 1, 1, 1⟩ =
        [layer8Tiling.dmaCopyX l1 a ⟨0, 0, 0, 0⟩, layer8Tiling.dmaCopyW l1 a 1952 ⟨0, 0, 0, 0⟩] :=
      rfl
    rw [hloads, List.mem_cons, List.mem_singleton] at hd
    rcases hd with rfl | rfl
    · exact layer8Tiling_proper.dmaCopyX_valid _
    · constructor <;> simp [Tiling.dmaCopyW, layer8Tiling, plainAxis, Tiling.fs, Axis.ySize]
  · constructor <;> simp [fullyConnected, dmaCopySums]
  · set m₁ := run (((fullyConnected (2 ^ k) l1 a).loads ⟨0, 0, 0, 0⟩ ⟨1, 1, 1, 1⟩).flatMap
      doryDmaMemcpyAsync) (run (doryDmaMemcpyAsync (dmaCopyBias l1 a)) m) with hm₁
    obtain ⟨hall, hloads⟩ := loads_all (x := fun q => m (a.l2Input + q))
      (w := fun q => m (a.l2Weights + q)) ⟨fun _ _ => rfl, hx⟩ ⟨fun _ _ => rfl, hw⟩ hm₁
    obtain ⟨hsums, hframe⟩ := pulpNnLinearU8I32I8_value (linearArgs_disjoint hk) hkernel
    rw [LinearArgs.outputCells, linearArgs_done hk] at hframe
    rw [linearArgs_done hk] at hsums
    obtain ⟨hstored, hrest⟩ := run_store_dense (c := dmaCopySums l1 a ⟨0, 0, 0, 0⟩) (m := m') rfl
      (Or.inl ⟨rfl, rfl⟩) fun q hq => by
        rw [dmaCopySums_size] at hq
        rw [dmaCopySums_ext, dmaCopySums_size, hloc, mem_cells]
        omega
    rw [dmaCopySums_ext, dmaCopySums_size, hloc] at hstored
    rw [dmaCopySums_ext, dmaCopySums_size] at hrest
    refine ⟨fun i hi => ?_, fun z hz hz' => ?_⟩
    · rw [← linearArgs_result hall hi, ← hsums i hi, ← segment_int32At]
      refine Bytes.segment_congr fun b hb => ?_
      rw [Nat.add_assoc, Nat.mul_comm]
      exact (hstored _ (by omega)).trans (congrArg m' (Nat.add_assoc _ _ _).symm)
    · rw [mem_cells] at hz
      refine (hrest z hz').trans ((hframe z fun hmem => ?_).trans (hloads z hz))
      rw [mem_cells, hout] at hmem
      omega

/-- **The fully connected layer computes its function** on one, two, four or eight cores. -/
theorem layer8FullyConnected_computes {t : LayerTable} (hk : k ≤ 3)
    (hx : t.activationsSize = 1920) (hy : t.activationsOutSize = 16) (hw : t.weightsSize = 7696)
    (hlayer : t.layerWithWeights = true) :
    Computes ⟨l1, l1BufferSize⟩ t fullyConnectedFunction (layer8FullyConnected (2 ^ k) l1) := by
  have hweights : t.weights = 7696 := by
    rw [LayerTable.weights, hlayer, if_pos rfl, hw]
  have hvalid : ∀ a, (dmaCopyBias l1 a).Valid := by
    intro a
    constructor <;> simp [dmaCopyBias]
  have hrun : ∀ a m, a.Sound ⟨l1, l1BufferSize⟩ t → (∃ n, layer8FullyConnected (2 ^ k) l1 a m n) ∧
      ∀ n, layer8FullyConnected (2 ^ k) l1 a m n → Summed l1 a m n := by
    intro a m ha
    obtain ⟨-, hxl1, hyl1, -, -, hwl1⟩ := ha
    have hwl1 := hwl1 hlayer
    simp only [Region.Apart, LayerArgs.input, LayerArgs.output, LayerArgs.weights, hx, hy,
      hweights] at hxl1 hyl1 hwl1
    obtain ⟨⟨n, hends⟩, hall⟩ := tileLoop_one rfl (fullyConnected_step (m := m) hk hxl1 hwl1 hyl1)
    exact ⟨⟨n, hvalid a, hends⟩, fun n hn => hall n hn.2⟩
  refine ⟨fun a m n ha hn => ?_, fun a m n ha hn z hz hz' => ?_, fun a m ha => (hrun a m ha).1⟩
  · have hsummed := (hrun a m ha).2 n hn
    rw [hy, hx, hweights, show 16 = 4 * 4 from rfl, Bytes.segment_mul, fullyConnectedFunction]
    refine List.flatMap_congr fun i hi => ?_
    have hi := List.mem_range.mp hi
    rw [hsummed.output i hi]
    refine congrArg (fun sum : Int32 => Bytes.toLE32 sum.toUInt32)
      (neuronSum_congr (fun q hq => ?_) (fun q hq => ?_) hi)
    · rw [Bytes.segment_getD m 0 hq]
    · rw [Bytes.segment_getD m 0 hq]
  · refine ((hrun a m ha).2 n hn).frame z (fun hmem => hz' hmem) fun hmem => hz ?_
    change a.l2Output ≤ z ∧ z < a.l2Output + t.activationsOutSize
    rw [hy]
    exact hmem

end

end AiDeck.Network
