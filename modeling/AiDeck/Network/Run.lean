import Mathlib
import AiDeck.Lib.Bytes
import AiDeck.Lib.Loop
import AiDeck.Network.Allocator

/-! # A run of a network

At start the files with the weights are loaded into external memory, one behind the other.
In a run each layer reads its input where the layer before has left it, and its weights,
which are fetched before, from the buffer that all of them share. What a layer computes is
left open here. -/
namespace AiDeck.Network

open AiDeck.Lib (Region)
open AiDeck.Lib.Bytes AiDeck.Lib.Loop

abbrev Memory := Nat → UInt8

/-! ## Loading the weights -/

/-- `BUFFER_SIZE` of `mem.c`. -/
def fileBufferSize : Nat := 128

/-- A round of the loop in `load_file_to_ram`, with the memory and the offset. -/
def loadRound (dest : Nat) (file : List UInt8) (s : Memory × Nat) : Memory × Nat :=
  let bytes := (file.drop s.2).take fileBufferSize
  (overwrite s.1 (dest + s.2) bytes, s.2 + bytes.length)

/-- `load_file_to_ram`; the loop has its condition at the end. -/
def loadFileToRam (ram : Memory) (dest : Nat) (file : List UInt8) : Option (Memory × Nat) :=
  whileLoop (fun s => s.2 < file.length) (loadRound dest file) (file.length + 1)
    (loadRound dest file (ram, 0))

def flashWeightsSize : Nat := 311088

/-- The loop of `network_init` over the files, with what is written and the sizes. -/
def loadWeights : Memory → Nat → List (List UInt8) → Option (Memory × List Nat)
  | ram, _, [] => some (ram, [])
  | ram, wPtr, file :: files => do
    let r ← loadFileToRam ram wPtr file
    let rest ← loadWeights r.1 (wPtr + r.2) files
    return (rest.1, r.2 :: rest.2)

/-- `network_init`; it ends in an assertion failure when the sizes do not add up. -/
def networkInit (ram : Memory) (l3Weights : Nat) (files : List (List UInt8)) :
    Option (Memory × List Nat) := do
  let r ← loadWeights ram l3Weights files
  if r.2.sum ≠ flashWeightsSize then none else return r

/-! ## The layers -/

/-- What `execute_layer_fork` hands to a layer, as far as its memory is concerned. -/
structure LayerArgs where
  l2Input : Nat
  l2Output : Nat
  l2Weights : Nat

def Pass.layerArgs (s : Pass) : LayerArgs where
  l2Input := (s.l2Input.getD 0).toNat
  l2Output := (s.l2Output.getD 0).toNat
  l2Weights := (s.l2Weights.getD 0).toNat

/-- What a layer may do to the memory. -/
abbrev Layer := LayerArgs → Memory → Memory → Prop

/-- The weights are fetched before a layer is executed. -/
def fetchWeights (ram : Memory) (t : LayerTable) (s : Pass) (m : Memory) : Memory :=
  if t.allocateLayer then
    overwrite m s.layerArgs.l2Weights (segment ram s.l3WeightsCurr t.weightsSize)
  else m

/-- The loop of `network_run_cluster` from layer `i` on. -/
inductive NetworkLoop (args : NetworkArgs) (l3WeightsSize : Nat → Nat) (ram : Memory)
    (layer : Nat → Layer) : Nat → List LayerTable → Pass → Memory → Pass → Memory → Prop
  | done {i : Nat} {s : Pass} {m : Memory} : NetworkLoop args l3WeightsSize ram layer i [] s m s m
  | layer {i : Nat} {t : LayerTable} {ts : List LayerTable} {s u : Pass} {m m' n : Memory}
      (hexec : layer i (allocate args i t s).layerArgs (fetchWeights ram t (allocate args i t s) m) m')
      (hrest : NetworkLoop args l3WeightsSize ram layer (i + 1) ts
        (release args l3WeightsSize i t (allocate args i t s)) m' u n) :
      NetworkLoop args l3WeightsSize ram layer i (t :: ts) s m u n

def networkInputSize : Nat := 15360

/-- `activations_out_size[8]`. -/
def networkOutputSize : Nat := 16

/-- `network_run_async` to its end, with the two assertions that it may fail. -/
def NetworkRun (args : NetworkArgs) (l3Weights : Nat) (l3WeightsSize : Nat → Nat) (ram : Memory)
    (layer : Nat → Layer) (m n : Memory) : Prop :=
  args.l2BufferSize = networkL2BufferSize ∧ args.inputPlace ≠ .refused ∧
    ∃ u m', NetworkLoop args l3WeightsSize ram layer 0 layers (Pass.first args l3Weights) m u m' ∧
      n = overwrite m' args.l2Output (segment m' u.layerArgs.l2Output networkOutputSize)

/-! ## What the weights are -/

section
variable {dest : Nat} {file : List UInt8} {ram : Memory} {s : Memory × Nat}

/-- The file is in memory up to the offset. -/
def Loaded (ram : Memory) (dest : Nat) (file : List UInt8) (left : Nat) (s : Memory × Nat) : Prop :=
  s.1 = overwrite ram dest (file.take s.2) ∧ s.2 + left = file.length

theorem loaded_round {left : Nat} (h : Loaded ram dest file left s) :
    Loaded ram dest file (left - fileBufferSize) (loadRound dest file s) := by
  obtain ⟨hmem, hleft⟩ := h
  have htake : (file.take s.2).length = s.2 := by
    rw [List.length_take]
    omega
  have hbytes : ((file.drop s.2).take fileBufferSize).length = min fileBufferSize left := by
    rw [List.length_take, List.length_drop]
    omega
  constructor
  · have happend := overwrite_append ram dest (file.take s.2) ((file.drop s.2).take fileBufferSize)
    rw [htake] at happend
    simp only [loadRound, hmem, happend, hbytes, List.take_add]
    congr 2
    rw [List.take_eq_take_iff, List.length_drop]
    omega
  · simp only [loadRound, hbytes]
    omega

theorem loadFileToRam_eq (ram : Memory) (dest : Nat) (file : List UInt8) :
    loadFileToRam ram dest file = some (overwrite ram dest file, file.length) := by
  have hfirst : Loaded ram dest file file.length (ram, 0) :=
    ⟨by rw [List.take_zero, overwrite_nil], Nat.zero_add _⟩
  have hround : ∀ left s, Loaded ram dest file left s → decide (s.2 < file.length) = true →
      ∃ left' < left, Loaded ram dest file left' (loadRound dest file s) := by
    intro left s h hmore
    have hlt := of_decide_eq_true hmore
    have hpos : 0 < fileBufferSize := by simp [fileBufferSize]
    have := h.2
    exact ⟨_, by omega, loaded_round h⟩
  obtain ⟨s, hs, hstop, left, -, hmem, hleft⟩ := whileLoop_spec (fun s => s.2 < file.length)
    (loadRound dest file) hround (loaded_round hfirst)
    (show file.length - fileBufferSize < file.length + 1 by omega)
  have hend : s.2 = file.length := by
    have := of_decide_eq_false hstop
    omega
  rw [loadFileToRam, hs]
  rw [hend, List.take_length] at hmem
  exact congrArg some (Prod.ext hmem hend)

theorem loadWeights_eq (ram : Memory) (wPtr : Nat) (files : List (List UInt8)) :
    loadWeights ram wPtr files =
      some (overwrite ram wPtr files.flatten, files.map List.length) := by
  induction files generalizing ram wPtr with
  | nil => rw [loadWeights, List.flatten_nil, overwrite_nil, List.map_nil]
  | cons file files ih =>
    rw [loadWeights, loadFileToRam_eq]
    simp [ih, overwrite_append]

end

/-! ## What a layer computes -/

section
variable {scratch : Region} {t : LayerTable}

def LayerArgs.input (a : LayerArgs) (t : LayerTable) : Region := ⟨a.l2Input, t.activationsSize⟩

def LayerArgs.output (a : LayerArgs) (t : LayerTable) : Region := ⟨a.l2Output, t.activationsOutSize⟩

def LayerArgs.weights (a : LayerArgs) (t : LayerTable) : Region := ⟨a.l2Weights, t.weights⟩

/-- The memory of a layer is its own, and none of it is where the cores work. -/
structure LayerArgs.Sound (a : LayerArgs) (scratch : Region) (t : LayerTable) : Prop where
  input_output : (a.input t).Apart (a.output t)
  input_scratch : (a.input t).Apart scratch
  output_scratch : (a.output t).Apart scratch
  input_weights : t.layerWithWeights → (a.input t).Apart (a.weights t)
  output_weights : t.layerWithWeights → (a.output t).Apart (a.weights t)
  weights_scratch : t.layerWithWeights → (a.weights t).Apart scratch

/-- The layer turns its input and its weights into its output and changes nothing else but
what the cores work on. -/
structure Computes (scratch : Region) (t : LayerTable) (f : List UInt8 → List UInt8 → List UInt8)
    (layer : Layer) : Prop where
  output : ∀ a m n, a.Sound scratch t → layer a m n →
    segment n a.l2Output t.activationsOutSize =
      f (segment m a.l2Input t.activationsSize) (segment m a.l2Weights t.weights)
  frame : ∀ a m n, a.Sound scratch t → layer a m n →
    ∀ x, ¬ (a.output t).Has x → ¬ scratch.Has x → n x = m x
  ends : ∀ a m, a.Sound scratch t → ∃ n, layer a m n

/-- The layers one after the other, each with the next weights if it has any. -/
def inference (f : Nat → List UInt8 → List UInt8 → List UInt8) :
    Nat → List LayerTable → List (List UInt8) → List UInt8 → List UInt8
  | _, [], _, x => x
  | i, t :: ts, files, x =>
    if t.layerWithWeights then inference f (i + 1) ts files.tail (f i x (files.headD []))
    else inference f (i + 1) ts files (f i x [])

/-- The size of what comes out of layers that take in so much. -/
def outputSize : List LayerTable → Nat → Nat
  | [], n => n
  | t :: ts, _ => outputSize ts t.activationsOutSize

/-- The files that are left are the weights of the layers that are left, and in memory from
where the pass reads on. -/
structure Weights (ram : Memory) (l3WeightsSize : Nat → Nat) (ts : List LayerTable)
    (files : List (List UInt8)) (s : Pass) : Prop where
  sizes : (ts.filter (·.layerWithWeights)).map (·.weightsSize) = files.map List.length
  allocated : ∀ t ∈ ts, t.allocateLayer = t.layerWithWeights
  ram : segment ram s.l3WeightsCurr files.flatten.length = files.flatten
  counted : ∀ j, ∀ file ∈ files[j]?, l3WeightsSize (s.weightLCnt + j) = file.length

end

/-! ## One pass -/

section
variable {args : NetworkArgs} {l3WeightsSize : Nat → Nat} {ram : Memory} {scratch : Region} {i : Nat}
  {t : LayerTable} {ts : List LayerTable} {files : List (List UInt8)} {s : Pass}

/-- Where the input of layer `i` is. -/
def inputBlock (args : NetworkArgs) (i : Nat) (t : LayerTable) (s : Pass) : Region :=
  block (if i = 0 then some (args.l2Input : Int) else s.l2Input) t.activationsSize

theorem Ready.sound (h : Ready args i t s) (hinput : i = 0 → args.InputKept t.activationsSize)
    (hclear : i = 0 → Region.Apart ⟨args.l2Input, t.activationsSize⟩ scratch)
    (hbuffer : args.buffer.Apart scratch) (hfit : Fits args i t) : (allocate args i t s).layerArgs.Sound scratch t := by
  have hplaced := h.placed hinput hfit
  have hweights : t.layerWithWeights = true → t.weights = t.weightsSize := fun hw => if_pos hw
  refine ⟨hplaced.input_output, ?_, hplaced.output_within.apart hbuffer, fun hw => ?_, fun hw => ?_,
    fun hw => ?_⟩
  · change (inputBlock args i t s).Apart scratch
    unfold inputBlock
    rcases Nat.eq_zero_or_pos i with rfl | hi
    · exact hclear rfl
    · have hheld : held args i t = t.activationsSize := by
        unfold held NetworkArgs.reserves
        simp [hi.ne']
      change held args i t + t.activationsOutSize + t.weights < networkL2BufferSize at hfit
      rw [if_neg hi.ne', h.input hi.ne']
      exact (endPtr_within (by omega)).apart hbuffer
  · rw [LayerArgs.weights, hweights hw]
    exact hplaced.input_weights hw
  · rw [LayerArgs.weights, hweights hw]
    exact hplaced.output_weights hw
  · rw [LayerArgs.weights, hweights hw]
    exact (hplaced.weights_within hw).apart hbuffer

/-- The weights of a pass are those of the next file. -/
theorem Weights.next (h : Weights ram l3WeightsSize (t :: ts) files s)
    (hw : t.layerWithWeights = true) :
    ∃ file files', files = file :: files' ∧ file.length = t.weightsSize ∧
      segment ram s.l3WeightsCurr t.weightsSize = file ∧
        l3WeightsSize s.weightLCnt = t.weightsSize := by
  have hsizes := h.sizes
  rw [List.filter_cons_of_pos hw, List.map_cons] at hsizes
  cases files with
  | nil => cases hsizes
  | cons file files =>
    rw [List.map_cons, List.cons.injEq] at hsizes
    refine ⟨file, files, rfl, hsizes.1.symm, ?_, ?_⟩
    · have hram := congrArg (List.take file.length) h.ram
      rwa [segment_take _ _ (by simp), List.flatten_cons, List.take_left' rfl, ← hsizes.1] at hram
    · rw [hsizes.1]
      exact h.counted 0 file rfl

theorem Weights.after (h : Weights ram l3WeightsSize (t :: ts) files s) :
    Weights ram l3WeightsSize ts (if t.layerWithWeights then files.tail else files)
      (release args l3WeightsSize i t (allocate args i t s)) := by
  have hallocated : ∀ t ∈ ts, t.allocateLayer = t.layerWithWeights :=
    fun t ht => h.allocated t (List.mem_cons_of_mem _ ht)
  by_cases hw : t.layerWithWeights = true
  · obtain ⟨file, files, rfl, hfile, -, hcount⟩ := h.next hw
    have hsizes := h.sizes
    rw [List.filter_cons_of_pos hw, List.map_cons, List.map_cons, List.cons.injEq] at hsizes
    rw [if_pos hw, List.tail_cons]
    refine ⟨hsizes.2, hallocated, ?_, fun j file' hj => ?_⟩
    · have hram := h.ram
      rw [List.flatten_cons, List.length_append, segment_add] at hram
      have hrest := (List.append_inj hram (segment_length _ _ _)).2
      simp only [release, hw, if_true]
      change segment ram (s.l3WeightsCurr + l3WeightsSize s.weightLCnt) _ = _
      rw [hcount, ← hfile]
      exact hrest
    · have hnext := h.counted (j + 1) file' hj
      simp only [release, hw, if_true]
      change l3WeightsSize (s.weightLCnt + 1 + j) = _
      rw [← hnext]
      congr 1
      omega
  · have hsizes := h.sizes
    rw [List.filter_cons_of_neg (by simpa using hw)] at hsizes
    rw [if_neg hw]
    refine ⟨hsizes, hallocated, ?_, fun j file hj => ?_⟩
    · simp only [release, hw]
      exact h.ram
    · simp only [release, hw]
      exact h.counted j file hj

/-- What the weights are fetched to, and that the input stays as it is. -/
theorem fetchWeights_spec {a : LayerArgs} (hsound : a.Sound scratch t) {m : Memory}
    (ha : (allocate args i t s).layerArgs = a)
    (hweights : Weights ram l3WeightsSize (t :: ts) files s) :
    segment (fetchWeights ram t (allocate args i t s) m) a.l2Input t.activationsSize =
      segment m a.l2Input t.activationsSize ∧
    segment (fetchWeights ram t (allocate args i t s) m) a.l2Weights t.weights =
      (if t.layerWithWeights then files.headD [] else []) ∧
    ∀ x, (t.layerWithWeights → ¬ (a.weights t).Has x) →
      fetchWeights ram t (allocate args i t s) m x = m x := by
  have hallocated := hweights.allocated t List.mem_cons_self
  unfold fetchWeights
  rw [hallocated, ha]
  by_cases hw : t.layerWithWeights = true
  · have hsize : t.weights = t.weightsSize := if_pos hw
    obtain ⟨file, files, rfl, hfile, hram, -⟩ := hweights.next hw
    have hcurr : (allocate args i t s).l3WeightsCurr = s.l3WeightsCurr := rfl
    simp only [hw, if_true, hcurr, hram, hsize, List.headD_cons]
    have hlength : file.length = (a.weights t).size := by
      rw [hfile, LayerArgs.weights, hsize]
    refine ⟨(hsound.input_weights hw).segment_overwrite hlength, ?_, fun x hx => ?_⟩
    · rw [← hfile]
      exact segment_overwrite m _ file
    · exact Region.overwrite_of_not_has hlength (hx trivial)
  · have hsize : t.weights = 0 := if_neg hw
    simp [hw, hsize, Lib.Bytes.segment]

/-- **What a pass does**: the output of its layer is what the layer makes of its input and of its
weights, and outside of the buffer nothing changes. -/
theorem pass_spec {f : List UInt8 → List UInt8 → List UInt8} {layer : Layer} {m m' : Memory}
    (h : Ready args i t s) (hinput : i = 0 → args.InputKept t.activationsSize)
    (hclear : i = 0 → Region.Apart ⟨args.l2Input, t.activationsSize⟩ scratch)
    (hbuffer : args.buffer.Apart scratch) (hfit : Fits args i t)
    (hweights : Weights ram l3WeightsSize (t :: ts) files s) (hcomputes : Computes scratch t f layer)
    (hexec : layer (allocate args i t s).layerArgs (fetchWeights ram t (allocate args i t s) m) m') :
    segment m' (block (allocate args i t s).l2Output t.activationsOutSize).start
        t.activationsOutSize =
      f (segment m (inputBlock args i t s).start t.activationsSize)
        (if t.layerWithWeights then files.headD [] else []) ∧
    ∀ x, ¬ args.buffer.Has x → ¬ scratch.Has x → m' x = m x := by
  have hsound := h.sound hinput hclear hbuffer hfit
  have hplaced := h.placed hinput hfit
  obtain ⟨hin, hfile, hkeeps⟩ := fetchWeights_spec (m := m) hsound rfl hweights
  have houtput := hcomputes.output _ _ _ hsound hexec
  rw [hin, hfile] at houtput
  refine ⟨houtput, fun x hx hscratch => ?_⟩
  have hframe := hcomputes.frame _ _ _ hsound hexec x
    (fun hout => hx (hplaced.output_within.has hout)) hscratch
  rw [hframe]
  refine hkeeps x fun hw hweight => hx ?_
  have hsize : t.weights = t.weightsSize := if_pos hw
  rw [LayerArgs.weights, hsize] at hweight
  exact (hplaced.weights_within hw).has hweight

end

/-! ## All passes -/

section
variable {args : NetworkArgs} {l3WeightsSize : Nat → Nat} {ram : Memory} {scratch : Region}
  {layer : Nat → Layer} {f : Nat → List UInt8 → List UInt8 → List UInt8}

/-- The layers from `i` on as the loop needs them. -/
structure Runnable (args : NetworkArgs) (scratch : Region) (layer : Nat → Layer)
    (f : Nat → List UInt8 → List UInt8 → List UInt8) (i : Nat) (ts : List LayerTable) : Prop where
  chained : Chained ts
  fits : ∀ k, ∀ t ∈ ts[k]?, Fits args (i + k) t
  computes : ∀ k, ∀ t ∈ ts[k]?, Computes scratch t (f (i + k)) (layer (i + k))

variable {i : Nat} {ts : List LayerTable} {files : List (List UInt8)} {s u : Pass} {m n : Memory}
  {t : LayerTable}

theorem Runnable.tail (h : Runnable args scratch layer f i (t :: ts)) :
    Runnable args scratch layer f (i + 1) ts := by
  refine ⟨h.chained.tail, fun k t' ht' => ?_, fun k t' ht' => ?_⟩
  · rw [Nat.add_right_comm]
    exact h.fits (k + 1) t' ht'
  · rw [Nat.add_right_comm]
    exact h.computes (k + 1) t' ht'

/-- The loop over the layers leaves in the last output what the layers make of their input one
after the other. -/
theorem NetworkLoop.inference_eq (h : NetworkLoop args l3WeightsSize ram layer i ts s m u n)
    {size : Nat} (hrun : Runnable args scratch layer f i ts) (hbuffer : args.buffer.Apart scratch)
    (hsize : ∀ t ∈ ts.head?, t.activationsSize = size)
    (hready : ∀ t ∈ ts.head?, Ready args i t s)
    (hinput : i = 0 → args.InputKept size ∧ Region.Apart ⟨args.l2Input, size⟩ scratch)
    (hempty : ts = [] → i ≠ 0 ∧ s.l2Output = s.l2Input)
    (hweights : Weights ram l3WeightsSize ts files s) :
    segment n u.layerArgs.l2Output (outputSize ts size) =
      inference f i ts files
        (segment m (block (if i = 0 then some (args.l2Input : Int) else s.l2Input) size).start size) ∧
    ∀ x, ¬ args.buffer.Has x → ¬ scratch.Has x → n x = m x := by
  induction h generalizing size files with
  | done =>
    obtain ⟨hi, hout⟩ := hempty rfl
    rw [if_neg hi, inference, outputSize, ← hout]
    exact ⟨rfl, fun _ _ _ => rfl⟩
  | @layer i t ts s u m m' n hexec hrest ih =>
    have hready := hready t rfl
    obtain rfl := hsize t rfl
    have hfit := hrun.fits 0 t rfl
    obtain ⟨hout, hframe⟩ := pass_spec hready (fun hi => (hinput hi).1) (fun hi => (hinput hi).2)
      hbuffer hfit hweights (hrun.computes 0 t rfl) hexec
    obtain ⟨hrest, hframe'⟩ := ih hrun.tail
      (fun t' ht' => hrun.chained.rel_head? ht')
      (fun t' ht' => hready.release hfit (hrun.chained.rel_head? ht'))
      (fun hi => absurd hi (Nat.succ_ne_zero i)) (fun _ => ⟨Nat.succ_ne_zero i, rfl⟩) hweights.after
    refine ⟨?_, fun x hx hscratch => (hframe' x hx hscratch).trans (hframe x hx hscratch)⟩
    rw [if_neg (Nat.succ_ne_zero i)] at hrest
    change segment n _ _ = inference f (i + 1) ts _ (segment m' (block
      (allocate args i t s).l2Output t.activationsOutSize).start t.activationsOutSize) at hrest
    rw [outputSize, hrest, hout, inference]
    by_cases hw : t.layerWithWeights = true
    · simp only [hw, if_true]
      rfl
    · simp only [hw]
      rfl

/-- The loop comes to its end. -/
theorem exists_networkLoop (hrun : Runnable args scratch layer f i ts)
    (hbuffer : args.buffer.Apart scratch)
    (hready : ∀ t ∈ ts.head?, Ready args i t s)
    (hinput : i = 0 → ∀ t ∈ ts.head?, args.InputKept t.activationsSize ∧
      Region.Apart ⟨args.l2Input, t.activationsSize⟩ scratch) (m : Memory) :
    ∃ u n, NetworkLoop args l3WeightsSize ram layer i ts s m u n := by
  induction ts generalizing i s m with
  | nil => exact ⟨s, m, .done⟩
  | cons t ts ih =>
    have hready := hready t rfl
    have hfit := hrun.fits 0 t rfl
    have hsound := hready.sound (fun hi => (hinput hi t rfl).1) (fun hi => (hinput hi t rfl).2)
      hbuffer hfit
    obtain ⟨m', hexec⟩ := (hrun.computes 0 t rfl).ends _
      (fetchWeights ram t (allocate args i t s) m) hsound
    obtain ⟨u, n, hrest⟩ := ih hrun.tail
      (fun t' ht' => hready.release hfit (hrun.chained.rel_head? ht'))
      (fun hi => absurd hi (Nat.succ_ne_zero i)) m'
    exact ⟨u, n, .layer hexec hrest⟩

theorem runnable_layers (hcomputes : ∀ k, ∀ t ∈ layers[k]?, Computes scratch t (f k) (layer k)) :
    Runnable args scratch layer f 0 layers := by
  refine ⟨layers_chained, fun k t ht => ?_, fun k t ht => ?_⟩
  · rw [Nat.zero_add]
    exact layers_fit args k t ht
  · rw [Nat.zero_add]
    exact hcomputes k t ht

/-- The weights that `network_init` has loaded are those of the layers. -/
theorem weights_loaded (ram : Memory) (l3Weights : Nat)
    (hfiles : (layers.filter (·.layerWithWeights)).map (·.weightsSize) = files.map List.length) :
    Weights (overwrite ram l3Weights files.flatten) ((files.map List.length).getD · 0) layers files
      (Pass.first args l3Weights) := by
  refine ⟨hfiles, ?_, segment_overwrite ram l3Weights _, fun j file hj => ?_⟩
  · unfold layers
    simp
  · have hlength : (files.map List.length)[j]? = some file.length := by
      rw [List.getElem?_map, Option.mem_def.mp hj, Option.map_some]
    change (files.map List.length).getD (0 + j) 0 = _
    rw [Nat.zero_add, List.getD_eq_getElem?_getD, hlength, Option.getD_some]

theorem networkInit_eq (ram : Memory) (l3Weights : Nat)
    (hfiles : (layers.filter (·.layerWithWeights)).map (·.weightsSize) = files.map List.length) :
    networkInit ram l3Weights files =
      some (overwrite ram l3Weights files.flatten, files.map List.length) := by
  have hsum : (files.map List.length).sum = flashWeightsSize := by
    rw [← hfiles]
    unfold layers flashWeightsSize
    simp
  rw [networkInit, loadWeights_eq]
  simp [hsum]

/-- The first layer takes in the input of the network. -/
theorem layers_head : ∀ t ∈ layers.head?, t.activationsSize = networkInputSize := by
  intro t ht
  obtain rfl := Option.some.inj ht
  rfl

section
variable (hsize : args.l2BufferSize = networkL2BufferSize)
  (hinput : args.InputKept networkInputSize) (hbuffer : args.buffer.Apart scratch)
  (hclear : Region.Apart ⟨args.l2Input, networkInputSize⟩ scratch)
  (hcomputes : ∀ k, ∀ t ∈ layers[k]?, Computes scratch t (f k) (layer k))
include hsize hinput hbuffer hclear hcomputes

theorem exists_networkRun (l3Weights : Nat) (m : Memory) :
    ∃ n, NetworkRun args l3Weights l3WeightsSize ram layer m n := by
  have hready : ∀ t ∈ layers.head?, Ready args 0 t (Pass.first args l3Weights) :=
    fun t _ => ready_first args l3Weights t hsize
  obtain ⟨u, m', hloop⟩ := @exists_networkLoop args l3WeightsSize ram _ _ _ _ _ _
    (@runnable_layers args _ _ _ hcomputes) hbuffer hready
    (fun _ t ht => by
      rw [layers_head t ht]
      exact ⟨hinput, hclear⟩) m
  refine ⟨_, hsize, ?_, u, m', hloop, rfl⟩
  rcases hinput with hstart | ⟨houtside, -⟩
  · simp [hstart]
  · simp [houtside]

/-- What a run leaves behind when the weights are loaded. -/
theorem NetworkRun.output_eq {l3Weights : Nat}
    (hfiles : (layers.filter (·.layerWithWeights)).map (·.weightsSize) = files.map List.length)
    (hn : NetworkRun args l3Weights ((files.map List.length).getD · 0)
      (overwrite ram l3Weights files.flatten) layer m n) :
    segment n args.l2Output networkOutputSize =
        inference f 0 layers files (segment m args.l2Input networkInputSize) ∧
      ∀ x, ¬ args.buffer.Has x → ¬ scratch.Has x →
        ¬ Region.Has ⟨args.l2Output, networkOutputSize⟩ x → n x = m x := by
  obtain ⟨-, -, u, m', hloop, rfl⟩ := hn
  obtain ⟨hout, hframe⟩ := hloop.inference_eq (@runnable_layers args _ _ _ hcomputes) hbuffer
    layers_head (fun t _ => ready_first args l3Weights t hsize) (fun _ => ⟨hinput, hclear⟩)
    (fun h => by cases h) (weights_loaded ram l3Weights hfiles)
  have hlength : (segment m' u.layerArgs.l2Output networkOutputSize).length =
      (Region.mk args.l2Output networkOutputSize).size := segment_length _ _ _
  constructor
  · have hstored := segment_overwrite m' args.l2Output
      (segment m' u.layerArgs.l2Output networkOutputSize)
    rw [segment_length] at hstored
    rw [hstored]
    exact hout
  · intro x hx hscratch hox
    have hkept := Region.overwrite_of_not_has (m := m') hlength hox
    exact hkept.trans (hframe x hx hscratch)

end

/-- **The network computes its layers one after the other**, each with the weights of its file:
from any place of the input that is not written, whatever was in memory, the run comes to
its end, the output is what the layers make of the input, and nothing else changes. -/
theorem networkRun_inference (args : NetworkArgs) (ram : Memory) (l3Weights : Nat)
    (hsize : args.l2BufferSize = networkL2BufferSize) (hinput : args.InputKept networkInputSize)
    (hfiles : (layers.filter (·.layerWithWeights)).map (·.weightsSize) = files.map List.length)
    (hbuffer : args.buffer.Apart scratch)
    (hclear : Region.Apart ⟨args.l2Input, networkInputSize⟩ scratch)
    (hcomputes : ∀ k, ∀ t ∈ layers[k]?, Computes scratch t (f k) (layer k)) (m : Memory) :
    ∃ ram' sizes, networkInit ram l3Weights files = some (ram', sizes) ∧
      (∃ n, NetworkRun args l3Weights (sizes.getD · 0) ram' layer m n) ∧
      ∀ n, NetworkRun args l3Weights (sizes.getD · 0) ram' layer m n →
        segment n args.l2Output networkOutputSize =
          inference f 0 layers files (segment m args.l2Input networkInputSize) ∧
        ∀ x, ¬ args.buffer.Has x → ¬ scratch.Has x →
          ¬ Region.Has ⟨args.l2Output, networkOutputSize⟩ x → n x = m x :=
  ⟨_, _, networkInit_eq ram l3Weights hfiles,
    exists_networkRun hsize hinput hbuffer hclear hcomputes l3Weights m,
    fun _ hn => hn.output_eq hsize hinput hbuffer hclear hcomputes hfiles⟩

end

/-! ## A network of sums -/

def sumTable (i : Nat) : LayerTable := layers.getD i ⟨0, 0, 0, false, false⟩

/-- The sum of the input and of the weights, over and over. -/
def sumLayer (i : Nat) (x w : List UInt8) : List UInt8 :=
  List.replicate (sumTable i).activationsOutSize (x.sum + w.sum)

def sumRun (i : Nat) : Layer := fun a m n =>
  n = overwrite m a.l2Output (sumLayer i (segment m a.l2Input (sumTable i).activationsSize)
    (segment m a.l2Weights (sumTable i).weights))

def sumWeights : List (List UInt8) :=
  ((layers.filter (·.layerWithWeights)).map (·.weightsSize)).map fun n => List.replicate n 1

theorem sumWeights_sizes : (layers.filter (·.layerWithWeights)).map (·.weightsSize) =
    sumWeights.map List.length := by
  unfold sumWeights
  rw [List.map_map]
  simp [Function.comp_def]

theorem sumLayer_computes (scratch : Region) (k : Nat) :
    ∀ t ∈ layers[k]?, Computes scratch t (sumLayer k) (sumRun k) := by
  intro t ht
  have htable : sumTable k = t := by
    rw [sumTable, List.getD_eq_getElem?_getD, Option.mem_def.mp ht, Option.getD_some]
  have hlength (x w : List UInt8) : (sumLayer k x w).length = t.activationsOutSize := by
    rw [sumLayer, List.length_replicate, htable]
  unfold sumRun
  rw [htable]
  refine ⟨?_, ?_, fun a m _ => ⟨_, rfl⟩⟩
  · intro a m n _ hn
    have hstored := segment_overwrite m a.l2Output (sumLayer k
      (segment m a.l2Input t.activationsSize) (segment m a.l2Weights t.weights))
    rw [hlength] at hstored
    rw [hn]
    exact hstored
  · intro a m n _ hn x hx _
    rw [hn]
    exact Region.overwrite_of_not_has (s := a.output t) (hlength _ _) hx

theorem networkRun_inference_sums :
    ∃ ram' sizes, networkInit (fun _ => 0) 0 sumWeights = some (ram', sizes) ∧
      ∃ n, NetworkRun cameraArgs 0 (sizes.getD · 0) ram' sumRun (fun _ => 2) n ∧
        segment n 0x1C020000 networkOutputSize = inference sumLayer 0 layers sumWeights
          (segment (fun _ => 2) 0x1C010000 networkInputSize) := by
  have hbuffer : cameraArgs.buffer.Apart ⟨0x10000000, 36700⟩ := by decide
  obtain ⟨ram', sizes, hinit, ⟨n, hn⟩, hrun⟩ := networkRun_inference cameraArgs (fun _ => 0) 0 rfl
    cameraArgs_inputKept sumWeights_sizes hbuffer (by decide) (sumLayer_computes _) (fun _ => 2)
  exact ⟨ram', sizes, hinit, n, hn, (hrun n hn).1⟩

end AiDeck.Network
