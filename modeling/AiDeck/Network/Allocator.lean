import Mathlib
import AiDeck.Lib.Regions

/-! # The memory of a network

The layers of a network take turns at the two ends of one buffer: a layer's input and its
weights lie at one end, its output at the other, where the next layer finds its input.
`dmalloc` refuses what does not fit, and nobody asks whether it did. -/
namespace AiDeck.Network

open AiDeck.Lib (Region)

/-! ## The directional allocator -/

structure Allocator where
  memBegin : Int
  memEnd : Int

def directionalAllocatorInit (begin : Int) (size : Nat) : Allocator := ⟨begin, begin + size⟩

/-- Direction 1 is `true`, a null pointer `none`. -/
def dmalloc (a : Allocator) (size : Nat) (direction : Bool) : Option Int × Allocator :=
  if a.memBegin + size < a.memEnd then
    if direction then (some a.memBegin, { a with memBegin := a.memBegin + size })
    else (some (a.memEnd - size), { a with memEnd := a.memEnd - size })
  else (none, a)

def dfree (a : Allocator) (size : Nat) (direction : Bool) : Allocator :=
  if direction then { a with memBegin := a.memBegin - size }
  else { a with memEnd := a.memEnd + size }

/-! ## The tables of a network -/

/-- A row of the tables of `network.h`, as far as it is about memory. -/
structure LayerTable where
  activationsSize : Nat
  activationsOutSize : Nat
  weightsSize : Nat
  layerWithWeights : Bool
  allocateLayer : Bool

def layers : List LayerTable :=
  [⟨15360, 122880, 1312, true, true⟩, ⟨122880, 30720, 0, false, false⟩,
    ⟨30720, 7680, 9728, true, true⟩, ⟨7680, 7680, 9728, true, true⟩,
    ⟨7680, 3840, 19456, true, true⟩, ⟨3840, 3840, 37888, true, true⟩,
    ⟨3840, 1920, 75776, true, true⟩, ⟨1920, 1920, 149504, true, true⟩,
    ⟨1920, 16, 7696, true, true⟩]

def networkL2BufferSize : Nat := 352000

structure NetworkArgs where
  l2Input : Nat
  l2Output : Nat
  l2Buffer : Nat
  l2BufferSize : Nat

/-- What `network_run_cluster` makes of the place of the input; the last ends in an
assertion failure. -/
inductive InputPlace
  | outside
  | atStart
  | refused
  deriving DecidableEq

def NetworkArgs.inputPlace (args : NetworkArgs) : InputPlace :=
  let l2InputManaged := args.l2Input ≥ args.l2Buffer ∧
    args.l2Input < args.l2Buffer + networkL2BufferSize
  let l2InputStart := args.l2Input = args.l2Buffer
  if ¬ l2InputManaged then .outside
  else if l2InputStart then .atStart
  else .refused

/-! ## A pass over a layer -/

/-- The variables of the loop over the layers. -/
structure Pass where
  allocator : Allocator
  l2Input : Option Int
  l2Output : Option Int
  l2Weights : Option Int
  l3WeightsCurr : Nat
  weightLCnt : Nat
  dir : Bool

def Pass.first (args : NetworkArgs) (l3Weights : Nat) : Pass where
  allocator := directionalAllocatorInit args.l2Buffer args.l2BufferSize
  l2Input := none
  l2Output := none
  l2Weights := none
  l3WeightsCurr := l3Weights
  weightLCnt := 0
  dir := true

/-- Whether the input of layer `i` has been, or is to be, taken from the allocator. -/
def NetworkArgs.reserves (args : NetworkArgs) (i : Nat) : Bool :=
  i != 0 || args.inputPlace == .atStart

/-- The pass up to where the layer is executed. -/
def allocate (args : NetworkArgs) (i : Nat) (t : LayerTable) (s : Pass) : Pass :=
  let a := if i = 0 ∧ args.inputPlace = .atStart then (dmalloc s.allocator t.activationsSize s.dir).2
    else s.allocator
  let output := dmalloc a t.activationsOutSize !s.dir
  let weights := if t.layerWithWeights then dmalloc output.2 t.weightsSize s.dir
    else (s.l2Weights, output.2)
  { s with
    allocator := weights.2
    l2Input := if i = 0 then some args.l2Input else s.l2Input
    l2Output := output.1
    l2Weights := weights.1 }

/-- The rest of the pass; `l3WeightsSize` are the sizes of the weight files. -/
def release (args : NetworkArgs) (l3WeightsSize : Nat → Nat) (i : Nat) (t : LayerTable) (s : Pass) :
    Pass :=
  let a := if t.layerWithWeights then dfree s.allocator t.weightsSize s.dir else s.allocator
  { s with
    allocator := if args.reserves i then dfree a t.activationsSize s.dir else a
    l2Input := s.l2Output
    l3WeightsCurr :=
      if t.layerWithWeights then s.l3WeightsCurr + l3WeightsSize s.weightLCnt else s.l3WeightsCurr
    weightLCnt := if t.layerWithWeights then s.weightLCnt + 1 else s.weightLCnt
    dir := !s.dir }

/-- The passes as they are when their layer is executed. -/
def plan (args : NetworkArgs) (l3WeightsSize : Nat → Nat) : Nat → List LayerTable → Pass → List Pass
  | _, [], _ => []
  | i, t :: ts, s =>
    allocate args i t s ::
      plan args l3WeightsSize (i + 1) ts (release args l3WeightsSize i t (allocate args i t s))

/-! ## Where the blocks of a layer lie -/

/-- The bytes from a pointer on. -/
def block (p : Option Int) (size : Nat) : Region := ⟨(p.getD 0).toNat, size⟩

def NetworkArgs.buffer (args : NetworkArgs) : Region := ⟨args.l2Buffer, networkL2BufferSize⟩

/-- The layer has its own memory for its input, its output and its weights: the last two in
the buffer, the input there or, if it is one that the caller keeps, apart from it. -/
structure Placed (args : NetworkArgs) (t : LayerTable) (s : Pass) : Prop where
  input : (block s.l2Input t.activationsSize).Within args.buffer ∨
    (block s.l2Input t.activationsSize).Apart args.buffer
  output : s.l2Output.isSome
  output_within : (block s.l2Output t.activationsOutSize).Within args.buffer
  input_output : (block s.l2Input t.activationsSize).Apart (block s.l2Output t.activationsOutSize)
  weights : t.layerWithWeights → s.l2Weights.isSome
  weights_within : t.layerWithWeights → (block s.l2Weights t.weightsSize).Within args.buffer
  input_weights : t.layerWithWeights →
    (block s.l2Input t.activationsSize).Apart (block s.l2Weights t.weightsSize)
  output_weights : t.layerWithWeights →
    (block s.l2Output t.activationsOutSize).Apart (block s.l2Weights t.weightsSize)

/-- The sizes of a layer leave a byte of the buffer free. -/
def Fits (args : NetworkArgs) (i : Nat) (t : LayerTable) : Prop :=
  (if args.reserves i then t.activationsSize else 0) + t.activationsOutSize +
    (if t.layerWithWeights then t.weightsSize else 0) < networkL2BufferSize

instance (args : NetworkArgs) (i : Nat) (t : LayerTable) : Decidable (Fits args i t) :=
  inferInstanceAs (Decidable (_ < _))

/-- The input has to be somewhere that is not written. -/
def NetworkArgs.InputKept (args : NetworkArgs) (inputSize : Nat) : Prop :=
  args.inputPlace = .atStart ∨
    args.inputPlace = .outside ∧ Region.Apart ⟨args.l2Input, inputSize⟩ args.buffer

/-! ## The two ends of the buffer -/

section
variable (base : Nat) (dir : Bool)

/-- So much is taken at the end of the direction, and so much at the other. -/
def Allocator.holding (near far : Nat) : Allocator where
  memBegin := base + (if dir then near else far : Nat)
  memEnd := base + networkL2BufferSize - (if dir then far else near : Nat)

/-- The block of a size behind so much taken, from the end of the direction. -/
def endPtr (taken size : Nat) : Int :=
  if dir then base + taken else base + networkL2BufferSize - taken - size

variable {base dir} {near far size : Nat}

theorem holding_not : Allocator.holding base (!dir) near far = Allocator.holding base dir far near := by
  cases dir <;> rfl

theorem dmalloc_near (h : near + far + size < networkL2BufferSize) :
    dmalloc (.holding base dir near far) size dir =
      (some (endPtr base dir near size), .holding base dir (near + size) far) := by
  unfold dmalloc Allocator.holding endPtr
  cases dir
  · rw [if_pos (by simp; omega)]
    simp
    omega
  · rw [if_pos (by simp; omega)]
    simp
    omega

theorem dmalloc_far (h : near + far + size < networkL2BufferSize) :
    dmalloc (.holding base dir near far) size (!dir) =
      (some (endPtr base (!dir) far size), .holding base dir near (far + size)) := by
  rw [← @holding_not base dir far near, dmalloc_near (by omega), holding_not]

theorem dmalloc_refused (direction : Bool) (h : ¬ near + far + size < networkL2BufferSize) :
    dmalloc (.holding base dir near far) size direction = (none, .holding base dir near far) := by
  unfold dmalloc Allocator.holding
  cases dir <;> exact if_neg (by simp; omega)

theorem dfree_near :
    dfree (.holding base dir (near + size) far) size dir = .holding base dir near far := by
  unfold dfree Allocator.holding
  cases dir <;> simp <;> omega

variable {taken taken' size' : Nat}

theorem endPtr_within (h : taken + size ≤ networkL2BufferSize) :
    (block (some (endPtr base dir taken size)) size).Within ⟨base, networkL2BufferSize⟩ := by
  unfold block endPtr Region.Within
  cases dir <;> simp <;> omega

theorem endPtr_apart_near (h : taken + size ≤ taken') (h' : taken' + size' ≤ networkL2BufferSize) :
    (block (some (endPtr base dir taken size)) size).Apart
      (block (some (endPtr base dir taken' size')) size') := by
  unfold block endPtr Region.Apart
  cases dir <;> simp <;> omega

theorem endPtr_apart_far (h : taken + size + (taken' + size') ≤ networkL2BufferSize) :
    (block (some (endPtr base dir taken size)) size).Apart
      (block (some (endPtr base (!dir) taken' size')) size') := by
  unfold block endPtr Region.Apart
  cases dir <;> simp <;> omega

end

/-! ## One pass -/

section
variable {args : NetworkArgs} {l3WeightsSize : Nat → Nat} {i : Nat} {t t' : LayerTable} {s : Pass}

/-- At the beginning of a pass the input of the layer is all that has been taken, at the end
of the direction. -/
structure Ready (args : NetworkArgs) (i : Nat) (t : LayerTable) (s : Pass) : Prop where
  dir : i = 0 → s.dir = true
  input : i ≠ 0 → s.l2Input = some (endPtr args.l2Buffer s.dir 0 t.activationsSize)
  allocator : s.allocator =
    .holding args.l2Buffer s.dir (if i = 0 then 0 else t.activationsSize) 0

theorem ready_first (args : NetworkArgs) (l3Weights : Nat) (t : LayerTable)
    (hsize : args.l2BufferSize = networkL2BufferSize) :
    Ready args 0 t (Pass.first args l3Weights) := by
  refine ⟨fun _ => rfl, fun h => absurd rfl h, ?_⟩
  simp [Pass.first, directionalAllocatorInit, Allocator.holding, hsize]

theorem l2Input_of_atStart (h : args.inputPlace = .atStart) : args.l2Input = args.l2Buffer := by
  unfold NetworkArgs.inputPlace at h
  dsimp only at h
  split at h
  · cases h
  · split at h
    next heq => exact heq
    next => cases h

/-- What a pass has reserved for its input. -/
def held (args : NetworkArgs) (i : Nat) (t : LayerTable) : Nat :=
  if args.reserves i then t.activationsSize else 0

/-- The size of the weights of a layer, if it has any. -/
def LayerTable.weights (t : LayerTable) : Nat := if t.layerWithWeights then t.weightsSize else 0

/-- The allocator once the input of the layer is reserved. -/
theorem Ready.reserved (h : Ready args i t s) (hfit : held args i t < networkL2BufferSize) :
    (if i = 0 ∧ args.inputPlace = .atStart then (dmalloc s.allocator t.activationsSize s.dir).2
      else s.allocator) = .holding args.l2Buffer s.dir (held args i t) 0 := by
  unfold held NetworkArgs.reserves at hfit ⊢
  rw [h.allocator]
  rcases Nat.eq_zero_or_pos i with rfl | hi
  · by_cases hstart : args.inputPlace = .atStart
    · simp only [hstart, and_self, if_true, beq_self_eq_true, Bool.or_true] at hfit ⊢
      rw [dmalloc_near (by omega), Nat.zero_add]
    · simp [hstart]
  · have hne : i ≠ 0 := hi.ne'
    simp [hne]

theorem Ready.allocate_eq (h : Ready args i t s) (hfit : Fits args i t) :
    allocate args i t s =
      { s with
        allocator := .holding args.l2Buffer s.dir (held args i t + t.weights) t.activationsOutSize
        l2Input := if i = 0 then some args.l2Input else s.l2Input
        l2Output := some (endPtr args.l2Buffer (!s.dir) 0 t.activationsOutSize)
        l2Weights := if t.layerWithWeights
          then some (endPtr args.l2Buffer s.dir (held args i t) t.weightsSize) else s.l2Weights } := by
  change held args i t + t.activationsOutSize + t.weights < networkL2BufferSize at hfit
  rw [allocate, h.reserved (by omega)]
  unfold LayerTable.weights at hfit ⊢
  simp only [dmalloc_far (show held args i t + 0 + t.activationsOutSize < _ by omega), Nat.zero_add]
  split
  next hweights =>
    rw [if_pos hweights] at hfit
    rw [dmalloc_near (by omega)]
  next => rw [Nat.add_zero]

/-- Where the input of a layer lies. -/
theorem Ready.input_cases (h : Ready args i t s)
    (hinput : i = 0 → args.InputKept t.activationsSize) :
    (held args i t = t.activationsSize ∧ (if i = 0 then some (args.l2Input : Int) else s.l2Input) =
      some (endPtr args.l2Buffer s.dir 0 t.activationsSize)) ∨
    (held args i t = 0 ∧ (block (if i = 0 then some (args.l2Input : Int) else s.l2Input)
      t.activationsSize).Apart args.buffer) := by
  unfold held NetworkArgs.reserves
  rcases Nat.eq_zero_or_pos i with rfl | hi
  · rw [if_pos rfl]
    rcases hinput rfl with hstart | ⟨houtside, hapart⟩
    · refine Or.inl ⟨by simp [hstart], ?_⟩
      rw [l2Input_of_atStart hstart, h.dir rfl]
      simp [endPtr]
    · exact Or.inr ⟨by simp [houtside], hapart⟩
  · have hne : i ≠ 0 := hi.ne'
    exact Or.inl ⟨by simp [hne], by rw [if_neg hne, h.input hne]⟩

/-- **A layer has its own memory** as soon as its blocks leave a byte of the buffer free. -/
theorem Ready.placed (h : Ready args i t s) (hinput : i = 0 → args.InputKept t.activationsSize)
    (hfit : Fits args i t) : Placed args t (allocate args i t s) := by
  have heq := h.allocate_eq hfit
  change held args i t + t.activationsOutSize + t.weights < networkL2BufferSize at hfit
  have houtput : (block (some (endPtr args.l2Buffer (!s.dir) 0 t.activationsOutSize))
      t.activationsOutSize).Within args.buffer := endPtr_within (by omega)
  rw [heq]
  have hweights : t.layerWithWeights = true → t.weights = t.weightsSize := fun hw => if_pos hw
  constructor
  · rcases h.input_cases hinput with ⟨hheld, hptr⟩ | ⟨-, hapart⟩
    · simp only [hptr]
      exact Or.inl (endPtr_within (by omega))
    · exact Or.inr hapart
  · exact rfl
  · exact houtput
  · rcases h.input_cases hinput with ⟨hheld, hptr⟩ | ⟨-, hapart⟩
    · simp only [hptr]
      exact endPtr_apart_far (by omega)
    · exact (houtput.apart hapart.symm).symm
  · intro hw
    simp [hw]
  · intro hw
    simp only [hw, if_true]
    exact endPtr_within (by rw [hweights hw] at hfit; omega)
  · intro hw
    rw [hweights hw] at hfit
    simp only [hw, if_true]
    rcases h.input_cases hinput with ⟨hheld, hptr⟩ | ⟨-, hapart⟩
    · simp only [hptr]
      exact endPtr_apart_near (by omega) (by omega)
    · have hwithin : (block (some (endPtr args.l2Buffer s.dir (held args i t) t.weightsSize))
          t.weightsSize).Within args.buffer := endPtr_within (by omega)
      exact (hwithin.apart hapart.symm).symm
  · intro hw
    rw [hweights hw] at hfit
    simp only [hw, if_true]
    exact (endPtr_apart_far (by omega)).symm

/-- A layer that has its own memory fits. -/
theorem Ready.fits (h : Ready args i t s) (hinput : i = 0 → args.InputKept t.activationsSize)
    (hout : 0 < t.activationsOutSize) (hplaced : Placed args t (allocate args i t s)) :
    Fits args i t := by
  change held args i t + t.activationsOutSize + t.weights < networkL2BufferSize
  have hheld : held args i t < networkL2BufferSize := by
    by_contra hge
    rcases h.input_cases hinput with ⟨hin, hptr⟩ | ⟨hzero, -⟩
    · rcases Nat.eq_zero_or_pos i with rfl | hi
      · -- the output is laid over an input that was not reserved
        have hoverlap := hplaced.input_output
        have hsome := hplaced.output
        rw [if_pos rfl, h.dir rfl] at hptr
        unfold allocate at hoverlap hsome
        simp only [hptr, h.allocator, if_true, h.dir rfl, @dmalloc_refused
          args.l2Buffer true 0 0 _ true (show ¬ 0 + 0 + t.activationsSize < _ by omega), ite_self] at hoverlap hsome
        by_cases hfit : t.activationsOutSize < networkL2BufferSize
        · rw [@dmalloc_far args.l2Buffer true 0 0 _ (by omega)] at hoverlap
          unfold block endPtr Region.Apart at hoverlap
          simp only [Option.getD_some, if_true, Bool.not_true, Bool.false_eq_true, if_false]
            at hoverlap
          push_cast at hoverlap
          omega
        · rw [dmalloc_refused _ (by omega)] at hsome
          cases hsome
      · have hsome := hplaced.output
        unfold allocate at hsome
        simp only [hi.ne', false_and, if_false, h.allocator] at hsome
        rw [dmalloc_refused _ (by omega)] at hsome
        cases hsome
    · rw [hzero] at hge
      exact hge (by decide)
  by_contra hge
  have hsome := hplaced.output
  have hweights := hplaced.weights
  unfold allocate at hsome hweights
  simp only [h.reserved hheld] at hsome hweights
  by_cases hfit : held args i t + t.activationsOutSize < networkL2BufferSize
  · rw [dmalloc_far (by omega)] at hweights
    by_cases hw : t.layerWithWeights = true
    · have hsize : t.weights = t.weightsSize := if_pos hw
      simp only [hw, if_true, Nat.zero_add, dmalloc_refused s.dir
        (show ¬ held args i t + t.activationsOutSize + t.weightsSize < _ by omega)] at hweights
      exact absurd (hweights trivial) (by simp)
    · have hsize : t.weights = 0 := if_neg hw
      omega
  · rw [dmalloc_refused _ (by omega)] at hsome
    cases hsome

end

/-! ## All passes -/

section
variable {args : NetworkArgs} {l3WeightsSize : Nat → Nat} {i : Nat} {t : LayerTable} {s : Pass}

/-- Each layer takes in what the one before gives out. -/
def Chained (ts : List LayerTable) : Prop :=
  ts.IsChain fun t t' => t'.activationsSize = t.activationsOutSize

theorem Ready.release (h : Ready args i t s) (hfit : Fits args i t) {t' : LayerTable}
    (hchain : t'.activationsSize = t.activationsOutSize) :
    Ready args (i + 1) t' (release args l3WeightsSize i t (allocate args i t s)) := by
  have heq := h.allocate_eq hfit
  rw [heq]
  refine ⟨fun hi => absurd hi (Nat.succ_ne_zero i), fun _ => ?_, ?_⟩
  · rw [hchain]
    rfl
  · -- first the weights are given back, then the input
    have hweights : (if t.layerWithWeights then
        dfree (.holding args.l2Buffer s.dir (held args i t + t.weights) t.activationsOutSize)
          t.weightsSize s.dir
        else .holding args.l2Buffer s.dir (held args i t + t.weights) t.activationsOutSize) =
          .holding args.l2Buffer s.dir (held args i t) t.activationsOutSize := by
      unfold LayerTable.weights
      split
      · exact dfree_near
      · rfl
    have hinput : (if args.reserves i then
        dfree (.holding args.l2Buffer s.dir (held args i t) t.activationsOutSize)
          t.activationsSize s.dir
        else .holding args.l2Buffer s.dir (held args i t) t.activationsOutSize) =
          .holding args.l2Buffer s.dir 0 t.activationsOutSize := by
      unfold held
      split
      · rw [← @dfree_near args.l2Buffer s.dir 0, Nat.zero_add]
      · rfl
    simp only [Network.release, hweights, hinput, if_neg (Nat.succ_ne_zero i), hchain, holding_not]

/-- The passes that are left place their layers if and only if these fit. -/
theorem plan_placed_iff {ts : List LayerTable} (hchain : Chained ts)
    (hout : ∀ t ∈ ts, 0 < t.activationsOutSize)
    (hinput : i = 0 → ∀ t ∈ ts.head?, args.InputKept t.activationsSize)
    (hready : ∀ t ∈ ts.head?, Ready args i t s) :
    List.Forall₂ (Placed args) ts (plan args l3WeightsSize i ts s) ↔
      ∀ k, ∀ t ∈ ts[k]?, Fits args (i + k) t := by
  induction ts generalizing i s with
  | nil => simp [plan]
  | cons t ts ih =>
    have hready := hready t rfl
    have hinput := fun hi => hinput hi t rfl
    have hhead : Placed args t (allocate args i t s) ↔ Fits args i t :=
      ⟨hready.fits hinput (hout t List.mem_cons_self), hready.placed hinput⟩
    rw [plan, List.forall₂_cons, hhead]
    have htail : Fits args i t → (List.Forall₂ (Placed args) ts (plan args l3WeightsSize (i + 1) ts
        (Network.release args l3WeightsSize i t (allocate args i t s))) ↔
          ∀ k, ∀ t ∈ ts[k]?, Fits args (i + 1 + k) t) := by
      intro hfit
      refine ih hchain.tail (fun t ht => hout t (List.mem_cons_of_mem _ ht))
        (fun hi => absurd hi (Nat.succ_ne_zero i)) ?_
      intro t' ht'
      exact hready.release hfit (hchain.rel_head? ht')
    constructor
    · intro ⟨hfit, hrest⟩ k t' ht'
      cases k with
      | zero =>
        obtain rfl := Option.some.inj ht'
        exact hfit
      | succ k =>
        have := (htail hfit).mp hrest k t' ht'
        rwa [Nat.add_right_comm] at this
    · intro hall
      have hfit := hall 0 t rfl
      refine ⟨hfit, (htail hfit).mpr fun k t' ht' => ?_⟩
      have := hall (k + 1) t' ht'
      rwa [Nat.add_right_comm]

end

/-- **When the layers of a network have their own memory**: the passes of a run give each layer
blocks of its own for its input, its output and its weights if and only if these leave a
byte of the buffer free, layer by layer. -/
theorem network_placed_iff (args : NetworkArgs) (l3Weights : Nat) (l3WeightsSize : Nat → Nat)
    {ts : List LayerTable} (hsize : args.l2BufferSize = networkL2BufferSize)
    (hinput : ∀ t ∈ ts.head?, args.InputKept t.activationsSize) (hchain : Chained ts)
    (hout : ∀ t ∈ ts, 0 < t.activationsOutSize) :
    List.Forall₂ (Placed args) ts (plan args l3WeightsSize 0 ts (Pass.first args l3Weights)) ↔
      ∀ i, ∀ t ∈ ts[i]?, Fits args i t := by
  have h := @plan_placed_iff args l3WeightsSize 0 _ ts hchain hout (fun _ => hinput)
    fun t _ => ready_first args l3Weights t hsize
  simpa only [Nat.zero_add] using h

theorem layers_chained : Chained layers := by
  unfold Chained layers
  simp

theorem layers_fit (args : NetworkArgs) (i : Nat) : ∀ t ∈ layers[i]?, Fits args i t := by
  intro t ht
  have hheld : held args i t ≤ t.activationsSize := by
    unfold held
    split <;> omega
  have hsizes : ∀ t ∈ layers,
      t.activationsSize + t.activationsOutSize + t.weights < networkL2BufferSize := by
    unfold layers LayerTable.weights networkL2BufferSize
    simp
  have := hsizes t (List.mem_of_getElem? ht)
  change held args i t + t.activationsOutSize + t.weights < networkL2BufferSize
  omega

/-- A camera frame in memory of its own, as the application has it. -/
def cameraArgs : NetworkArgs where
  l2Input := 0x1C010000
  l2Output := 0x1C020000
  l2Buffer := 0x1C020000
  l2BufferSize := 352000

theorem cameraArgs_inputKept : cameraArgs.InputKept 15360 := Or.inr ⟨by decide, by decide⟩

theorem network_placed_camera :
    List.Forall₂ (Placed cameraArgs) layers
      (plan cameraArgs (fun _ => 0) 0 layers (Pass.first cameraArgs 0)) := by
  refine (network_placed_iff cameraArgs 0 (fun _ => 0) rfl ?_ layers_chained ?_).mpr (layers_fit _)
  · intro t ht
    obtain rfl := Option.some.inj ht
    exact cameraArgs_inputKept
  · unfold layers
    simp

end AiDeck.Network
