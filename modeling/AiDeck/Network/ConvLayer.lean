import Mathlib
import AiDeck.Network.ConvCores
import AiDeck.Network.Tiling

/-! # The convolution layers

`layer0_BNReluConvolution` and its likes are one function with other constants: tiles of the
input, the weights, and the factors `k` and `lambda` behind these, are brought to the
cluster, as far as they are not there from the tile before. -/
namespace AiDeck.Network

open AiDeck.Lib AiDeck.Lib.Cores AiDeck.Lib.Copies AiDeck.Lib.Convolution AiDeck.Lib.Tiles

/-! ## The layers -/

/-- The constants of a layer. -/
structure ConvLayer extends Tiling where
  l1WOffset : Nat
  l1KOffset : Nat
  l1LambdaOffset : Nat
  l1Im2colOffset : Nat
  l2OffK : Nat
  l2OffLambda : Nat
  kTileSizeByteTransfer : Nat

section
variable (c : ConvLayer) (numCores l1Buffer outMult outShift : Nat) (a : LayerArgs)

/-- `DMA_copy_k` and `DMA_copy_lambda`, from and to their own offsets. -/
def ConvLayer.dmaCopyFactor (l2Off l1Offset : Nat) (i : TileIndex) : DmaCopy where
  ext := a.l2Weights + l2Off + c.kTileSizeByteTransfer * i.nof
  loc := l1Buffer + l1Offset
  stride2d := 0
  numberOf2dCopies := 1
  stride1d := 0
  numberOf1dCopies := 1
  length1dCopy := c.filters.ySize i.nof * 8
  dir := true

/-- The call of `pulp_nn_conv_u8_u8_i8`. -/
def ConvLayer.convArgs (i : TileIndex) : ConvArgs where
  pIn := l1Buffer
  pIm2ColBuffer := l1Buffer + c.l1Im2colOffset
  pBias := none
  pOut := l1Buffer + c.l1YOffset
  pWeight := l1Buffer + c.l1WOffset
  pKappa := l1Buffer + c.l1KOffset
  pLambda := l1Buffer + c.l1LambdaOffset
  outMult := outMult
  outShift := outShift
  dimInX := c.columns.xSize i.w
  dimInY := c.lines.xSize i.h
  chIn := c.nif
  dimOutX := c.columns.ySize i.w
  dimOutY := c.lines.ySize i.h
  chOut := c.filters.ySize i.nof
  dimKernelX := c.columns.kernel
  dimKernelY := c.lines.kernel
  paddingYTop := c.lines.padBefore i.h
  paddingYBottom := c.lines.padAfter i.h
  paddingXLeft := c.columns.padBefore i.w
  paddingXRight := c.columns.padAfter i.w
  strideX := c.columns.stride
  strideY := c.lines.stride
  flagRelu := 1
  flagBatchNorm := 1

/-- The body of the loop over the tiles. -/
def ConvLayer.tiled : TiledLayer where
  totalTiles := c.totalTiles
  next := nextTile c.lines.tiles c.columns.tiles 0
  loads load exec :=
    (if load.nif ≠ exec.nif ∨ load.w ≠ exec.w ∨ load.h ≠ exec.h then
      [c.dmaCopyX l1Buffer a load] else []) ++
    (if load.nif ≠ exec.nif ∨ load.nof ≠ exec.nof then
      [c.dmaCopyW l1Buffer a c.l1WOffset load, c.dmaCopyFactor l1Buffer a c.l2OffK c.l1KOffset load,
        c.dmaCopyFactor l1Buffer a c.l2OffLambda c.l1LambdaOffset load] else [])
  kernel load := pulpNnConvU8U8I8 (c.convArgs l1Buffer outMult outShift load) numCores
  store := c.dmaCopyY l1Buffer a

/-- A layer from its first tile on; the indices of the tile before are such that all is loaded. -/
def bnReluConvolution : Layer := fun a m n =>
  TileLoop (c.tiled numCores l1Buffer outMult outShift a) 0 ⟨0, 0, 0, 0⟩ ⟨1, 1, 1, 1⟩ m n

end

def layer0BNReluConvolution : ConvLayer where
  lines := {
    kernel := 5, stride := 2, pad := 2, tiles := 2, xTile := 67, xTileLast := 34,
    overlap := 3, yTile := 32, yTileLast := 16 }
  columns := {
    kernel := 5, stride := 2, pad := 2, tiles := 3, xTile := 63, xTileLast := 42,
    overlap := 3, yTile := 30, yTileLast := 20 }
  filters := plainAxis 1 32 32
  nif := 1
  nof := 32
  xH := 96
  xW := 160
  yH := 48
  yW := 80
  l1YOffset := 4229
  l1WOffset := 34957
  l1KOffset := 35765
  l1LambdaOffset := 36029
  l1Im2colOffset := 36293
  l2OffK := 800
  l2OffLambda := 1056
  kTileSizeByteTransfer := 256

def layer2BNReluConvolution : ConvLayer where
  lines := {
    kernel := 3, stride := 2, pad := 1, tiles := 2, xTile := 17, xTileLast := 9,
    overlap := 1, yTile := 8, yTileLast := 4 }
  columns := {
    kernel := 3, stride := 2, pad := 1, tiles := 2, xTile := 33, xTileLast := 9,
    overlap := 1, yTile := 16, yTileLast := 4 }
  filters := plainAxis 1 32 32
  nif := 32
  nof := 32
  xH := 24
  xW := 40
  yH := 12
  yW := 20
  l1YOffset := 17960
  l1WOffset := 22064
  l1KOffset := 31288
  l1LambdaOffset := 31552
  l1Im2colOffset := 31816
  l2OffK := 9216
  l2OffLambda := 9472
  kTileSizeByteTransfer := 256

def layer3BNReluConvolution : ConvLayer where
  lines := {
    kernel := 3, stride := 1, pad := 1, tiles := 1, xTile := 12, xTileLast := 12,
    overlap := 2, yTile := 12, yTileLast := 12 }
  columns := {
    kernel := 3, stride := 1, pad := 1, tiles := 1, xTile := 20, xTileLast := 20,
    overlap := 2, yTile := 20, yTileLast := 20 }
  filters := plainAxis 1 32 32
  nif := 32
  nof := 32
  xH := 12
  xW := 20
  yH := 12
  yW := 20
  l1YOffset := 7688
  l1WOffset := 15376
  l1KOffset := 24600
  l1LambdaOffset := 24864
  l1Im2colOffset := 25128
  l2OffK := 9216
  l2OffLambda := 9472
  kTileSizeByteTransfer := 256

def layer4BNReluConvolution : ConvLayer where
  lines := {
    kernel := 3, stride := 2, pad := 1, tiles := 1, xTile := 12, xTileLast := 12,
    overlap := 1, yTile := 6, yTileLast := 6 }
  columns := {
    kernel := 3, stride := 2, pad := 1, tiles := 1, xTile := 20, xTileLast := 20,
    overlap := 1, yTile := 10, yTileLast := 10 }
  filters := plainAxis 1 64 64
  nif := 32
  nof := 64
  xH := 12
  xW := 20
  yH := 6
  yW := 10
  l1YOffset := 7688
  l1WOffset := 11536
  l1KOffset := 29976
  l1LambdaOffset := 30496
  l1Im2colOffset := 31016
  l2OffK := 18432
  l2OffLambda := 18944
  kTileSizeByteTransfer := 512

def layer5BNReluConvolution : ConvLayer where
  lines := {
    kernel := 3, stride := 1, pad := 1, tiles := 1, xTile := 6, xTileLast := 6,
    overlap := 2, yTile := 6, yTileLast := 6 }
  columns := {
    kernel := 3, stride := 1, pad := 1, tiles := 3, xTile := 6, xTileLast := 3,
    overlap := 2, yTile := 4, yTileLast := 2 }
  filters := plainAxis 2 40 24
  nif := 64
  nof := 64
  xH := 6
  xW := 10
  yH := 6
  yW := 10
  l1YOffset := 2312
  l1WOffset := 3280
  l1KOffset := 26328
  l1LambdaOffset := 26656
  l1Im2colOffset := 26984
  l2OffK := 36864
  l2OffLambda := 37376
  kTileSizeByteTransfer := 320

def layer6BNReluConvolution : ConvLayer where
  lines := {
    kernel := 3, stride := 2, pad := 1, tiles := 2, xTile := 5, xTileLast := 3,
    overlap := 1, yTile := 2, yTileLast := 1 }
  columns := {
    kernel := 3, stride := 2, pad := 1, tiles := 2, xTile := 9, xTileLast := 3,
    overlap := 1, yTile := 4, yTileLast := 1 }
  filters := plainAxis 4 40 8
  nif := 64
  nof := 128
  xH := 6
  xW := 10
  yH := 3
  yW := 5
  l1YOffset := 2888
  l1WOffset := 3216
  l1KOffset := 26264
  l1LambdaOffset := 26592
  l1Im2colOffset := 26920
  l2OffK := 73728
  l2OffLambda := 74752
  kTileSizeByteTransfer := 320

def layer7BNReluConvolution : ConvLayer where
  lines := {
    kernel := 3, stride := 1, pad := 1, tiles := 1, xTile := 3, xTileLast := 3,
    overlap := 2, yTile := 3, yTileLast := 3 }
  columns := {
    kernel := 3, stride := 1, pad := 1, tiles := 3, xTile := 4, xTileLast := 2,
    overlap := 2, yTile := 2, yTileLast := 1 }
  filters := plainAxis 11 12 8
  nif := 128
  nof := 128
  xH := 3
  xW := 5
  yH := 3
  yW := 5
  l1YOffset := 1544
  l1WOffset := 1624
  l1KOffset := 15456
  l1LambdaOffset := 15560
  l1Im2colOffset := 15664
  l2OffK := 147456
  l2OffLambda := 148480
  kTileSizeByteTransfer := 96

end AiDeck.Network
