import Mathlib
import AiDeck.Network.Run
import AiDeck.Network.ConvRun
import AiDeck.Network.Pooling
import AiDeck.Network.FullyConnected

/-! # The network

The nine layers with their constants, each with what it computes, and the run over them. -/
namespace AiDeck.Network

open AiDeck.Lib (Region)
open AiDeck.Lib.Bytes

/-! ## The layers -/

def outMultVector : List Nat := [1, 1, 1, 1, 1, 1, 1, 1, 1]

def outShiftVector : List Nat := [24, 0, 24, 24, 24, 24, 24, 24, 0]

/-- The switch of `execute_layer_fork`; the memory of the cluster is allocated for each layer and
freed after it. -/
def executeLayerFork (numCores l1Buffer layerId : Nat) : Layer :=
  let outMult := outMultVector.getD layerId 0
  let outShift := outShiftVector.getD layerId 0
  match layerId with
  | 0 => bnReluConvolution layer0BNReluConvolution numCores l1Buffer outMult outShift
  | 1 => pooling layer1Pooling numCores l1Buffer
  | 2 => bnReluConvolution layer2BNReluConvolution numCores l1Buffer outMult outShift
  | 3 => bnReluConvolution layer3BNReluConvolution numCores l1Buffer outMult outShift
  | 4 => bnReluConvolution layer4BNReluConvolution numCores l1Buffer outMult outShift
  | 5 => bnReluConvolution layer5BNReluConvolution numCores l1Buffer outMult outShift
  | 6 => bnReluConvolution layer6BNReluConvolution numCores l1Buffer outMult outShift
  | 7 => bnReluConvolution layer7BNReluConvolution numCores l1Buffer outMult outShift
  | 8 => layer8FullyConnected numCores l1Buffer
  | _ => fun _ m n => n = m

def ConvLayer.layerFunction (c : ConvLayer) (layerId : Nat) : List UInt8 → List UInt8 → List UInt8 :=
  c.function (c.result (outShiftVector.getD layerId 0))

/-- What the layers make of their input and their weights. -/
def frontnet (layerId : Nat) : List UInt8 → List UInt8 → List UInt8 :=
  match layerId with
  | 0 => layer0BNReluConvolution.layerFunction 0
  | 1 => layer1Pooling.function fun x _ => layer1Pooling.poolResult x
  | 2 => layer2BNReluConvolution.layerFunction 2
  | 3 => layer3BNReluConvolution.layerFunction 3
  | 4 => layer4BNReluConvolution.layerFunction 4
  | 5 => layer5BNReluConvolution.layerFunction 5
  | 6 => layer6BNReluConvolution.layerFunction 6
  | 7 => layer7BNReluConvolution.layerFunction 7
  | _ => fullyConnectedFunction

/-! ## What they compute -/

section
variable {k l1 : Nat}

/-- Eight cores have room, and so have fewer. -/
theorem conv_computes {c : ConvLayer} {t : LayerTable} (h : c.Proper (2 ^ 3)) (ht : c.Sized t)
    (hk : k ≤ 3) (layerId outMult : Nat) :
    Computes ⟨l1, l1BufferSize⟩ t (c.layerFunction layerId)
      (bnReluConvolution c (2 ^ k) l1 outMult (outShiftVector.getD layerId 0)) :=
  bnReluConvolution_computes (h.mono (Nat.pow_le_pow_right Nat.two_pos hk)) ht

theorem executeLayerFork_computes (hk : k ≤ 3) (layerId : Nat) : ∀ t ∈ layers[layerId]?,
    Computes ⟨l1, l1BufferSize⟩ t (frontnet layerId) (executeLayerFork (2 ^ k) l1 layerId) := by
  intro t ht
  have hlt : layerId < 9 := (List.getElem?_eq_some_iff.mp ht).1
  interval_cases layerId <;> obtain rfl := Option.some.inj ht
  · exact conv_computes (by decide) ⟨⟨rfl, rfl⟩, rfl, rfl⟩ hk 0 _
  · exact pooling_computes (by decide) ⟨rfl, rfl⟩
  · exact conv_computes (by decide) ⟨⟨rfl, rfl⟩, rfl, rfl⟩ hk 2 _
  · exact conv_computes (by decide) ⟨⟨rfl, rfl⟩, rfl, rfl⟩ hk 3 _
  · exact conv_computes (by decide) ⟨⟨rfl, rfl⟩, rfl, rfl⟩ hk 4 _
  · exact conv_computes (by decide) ⟨⟨rfl, rfl⟩, rfl, rfl⟩ hk 5 _
  · exact conv_computes (by decide) ⟨⟨rfl, rfl⟩, rfl, rfl⟩ hk 6 _
  · exact conv_computes (by decide) ⟨⟨rfl, rfl⟩, rfl, rfl⟩ hk 7 _
  · exact layer8FullyConnected_computes hk rfl rfl rfl rfl

end

/-! ## The run -/

/-- **The network computes what its layers do**, from the files with the weights to the four
words of its output: on one, two, four or eight cores, however they take turns and whatever was
in memory, the run comes to its end, and nothing else changes but the buffer and the memory of
the cluster. -/
theorem networkRun_frontnet (args : NetworkArgs) (ram : Memory) (l3Weights l1Buffer : Nat)
    {files : List (List UInt8)} {k : Nat} (hk : k ≤ 3)
    (hsize : args.l2BufferSize = networkL2BufferSize) (hinput : args.InputKept networkInputSize)
    (hfiles : (layers.filter (·.layerWithWeights)).map (·.weightsSize) = files.map List.length)
    (hbuffer : args.buffer.Apart ⟨l1Buffer, l1BufferSize⟩)
    (hclear : Region.Apart ⟨args.l2Input, networkInputSize⟩ ⟨l1Buffer, l1BufferSize⟩) (m : Memory) :
    ∃ ram' sizes, networkInit ram l3Weights files = some (ram', sizes) ∧
      (∃ n, NetworkRun args l3Weights (sizes.getD · 0) ram' (executeLayerFork (2 ^ k) l1Buffer) m n) ∧
      ∀ n, NetworkRun args l3Weights (sizes.getD · 0) ram' (executeLayerFork (2 ^ k) l1Buffer) m n →
        segment n args.l2Output networkOutputSize =
          inference frontnet 0 layers files (segment m args.l2Input networkInputSize) ∧
        ∀ x, ¬ args.buffer.Has x → ¬ Region.Has ⟨l1Buffer, l1BufferSize⟩ x →
          ¬ Region.Has ⟨args.l2Output, networkOutputSize⟩ x → n x = m x :=
  ⟨_, _, networkInit_eq ram l3Weights hfiles,
    exists_networkRun hsize hinput hbuffer hclear (executeLayerFork_computes hk) l3Weights m,
    fun _ hn => hn.output_eq hsize hinput hbuffer hclear (executeLayerFork_computes hk) hfiles⟩

/-- Weights of ones, on eight cores. -/
theorem networkRun_frontnet_ones :
    ∃ ram' sizes, networkInit (fun _ => 0) 0 sumWeights = some (ram', sizes) ∧
      ∃ n, NetworkRun cameraArgs 0 (sizes.getD · 0) ram' (executeLayerFork (2 ^ 3) 0x10000000)
          (fun _ => 2) n ∧
        segment n 0x1C020000 networkOutputSize = inference frontnet 0 layers sumWeights
          (segment (fun _ => 2) 0x1C010000 networkInputSize) := by
  obtain ⟨ram', sizes, hinit, ⟨n, hn⟩, hrun⟩ := networkRun_frontnet cameraArgs (fun _ => 0) 0
    0x10000000 (le_refl 3) rfl cameraArgs_inputKept sumWeights_sizes (by decide) (by decide)
    (fun _ => 2)
  exact ⟨ram', sizes, hinit, n, hn, (hrun n hn).1⟩

end AiDeck.Network
