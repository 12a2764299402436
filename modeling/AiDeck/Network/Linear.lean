import Mathlib
import AiDeck.Network.ConvCores

/-! # The linear layer

`pulp_nn_linear_u8_i32_i8` shares out neurons; a core does its neurons two at a time and a last
one alone when its share is odd. Whether there is a last one is decided by the share of all
cores and not by its own, so that a core with a smaller share may do a neuron too many. -/
namespace AiDeck.Network

open AiDeck.Lib AiDeck.Lib.Cores AiDeck.Lib.Copies

/-! ## The kernel -/

/-- What a core does of so many neurons: from `start` to `stop_even` in pairs, then the last. -/
def neurons (chunk numONeurons coreId : Nat) : List Nat :=
  let start := min (chunk * coreId) numONeurons
  let stop := min (start + chunk) numONeurons
  let lftNeurons := chunk &&& 1
  let stopEven := stop - lftNeurons
  let pairs := (stopEven + 1 - start) / 2
  (List.range pairs).flatMap (fun j => [start + 2 * j, start + 2 * j + 1]) ++
    if lftNeurons ≠ 0 ∧ stop - start > 0 then [start + 2 * pairs] else []

structure LinearArgs where
  pIn : Nat
  pBias : Option Nat
  pOut : Nat
  pWeight : Nat
  dimVec : Nat
  numONeurons : Nat

section
variable (a : LinearArgs)

def LinearArgs.bias (m : Memory) (i : Nat) : Int32 :=
  if let some pBias := a.pBias then int32At m (pBias + 4 * i) else 0

def LinearArgs.sum (m : Memory) (i : Nat) : Int32 :=
  Dot.dot (fun q => m (a.pIn + q)) (fun q => m (a.pWeight + i * a.dimVec + q)) a.dimVec (a.bias m i)

/-- The sum of a neuron is stored. It is taken once more for each of its bytes, of which none is
among those it is taken from. -/
def LinearArgs.neuron (i : Nat) : ByteProgram :=
  (List.range 4).map fun b =>
    ⟨a.pOut + 4 * i + b, fun m => (Bytes.toLE32 (a.sum m i).toUInt32).getD b 0⟩

/-- `pulp_nn_linear_u8_i32_i8`. -/
def pulpNnLinearU8I32I8 (numCores : Nat) : Memory → Memory → Prop :=
  Phase fun core : Fin numCores =>
    (neurons (coreChunk numCores.log2 numCores a.numONeurons) a.numONeurons core).flatMap a.neuron

end

/-! ## The neurons of all cores -/

section
variable {chunk n core : Nat}

theorem flatMap_pairs (s p : Nat) :
    (List.range p).flatMap (fun j => [s + 2 * j, s + 2 * j + 1]) = List.range' s (2 * p) := by
  induction p with
  | zero => rfl
  | succ p ih =>
    rw [List.range_succ, List.flatMap_append, ih, List.flatMap_singleton, Nat.mul_succ,
      ← List.range'_append_1]
    rfl

theorem neurons_eq (chunk n core : Nat) : neurons chunk n core =
    List.range' (min (chunk * core) n) (2 * ((min (min (chunk * core) n + chunk) n - chunk % 2 + 1 -
      min (chunk * core) n) / 2) +
        if chunk % 2 ≠ 0 ∧ min (min (chunk * core) n + chunk) n - min (chunk * core) n > 0 then 1
        else 0) := by
  unfold neurons
  dsimp only
  rw [flatMap_pairs, Nat.and_one_is_mod]
  split
  · rw [← List.range'_append_1]
    rfl
  · rw [List.append_nil]
    rfl

/-- The last share is whole, or as odd or even as the others. -/
def Paired (chunk n : Nat) : Prop := n % chunk = 0 ∨ n % chunk % 2 = chunk % 2

instance : Decidable (Paired chunk n) := inferInstanceAs (Decidable (_ ∨ _))

/-- The neurons that are done. -/
def doneNeurons (chunk n : Nat) : Nat := if Paired chunk n then n else n + 1

theorem neurons_eq_block (chunk n core : Nat) :
    neurons chunk n core = Share.block (doneNeurons chunk n) chunk core := by
  have hnext : (core + 1) * chunk = chunk * core + chunk := by ring
  have hcomm : core * chunk = chunk * core := Nat.mul_comm _ _
  have hdone : n ≤ doneNeurons chunk n ∧ doneNeurons chunk n ≤ n + 1 := by
    unfold doneNeurons
    split <;> omega
  rw [neurons_eq, Share.block, hnext, hcomm]
  rcases Nat.lt_or_ge (chunk * core) n with hlt | hge
  · rw [Nat.min_eq_left hlt.le]
    rcases Nat.lt_or_ge n (chunk * core + chunk) with hpart | hfull
    · -- the last share, which may have one neuron too many
      have hrest : n % chunk = n - chunk * core := by
        obtain ⟨r, rfl⟩ := Nat.exists_eq_add_of_le hlt.le
        rw [Nat.mul_add_mod, Nat.mod_eq_of_lt (by omega), Nat.add_sub_cancel_left]
      have hcase : doneNeurons chunk n = n ∧ (n - chunk * core) % 2 = chunk % 2 ∨
          doneNeurons chunk n = n + 1 ∧ (n - chunk * core) % 2 ≠ chunk % 2 := by
        have hpaired : Paired chunk n ↔ (n - chunk * core) % 2 = chunk % 2 := by
          unfold Paired
          rw [hrest]
          omega
        unfold doneNeurons
        split
        next h => exact Or.inl ⟨rfl, hpaired.mp h⟩
        next h => exact Or.inr ⟨rfl, fun heq => h (hpaired.mpr heq)⟩
      congr 1
      split <;> omega
    · congr 1
      split <;> omega
  · have hnone : doneNeurons chunk n ≤ chunk * core := by
      rcases Nat.eq_or_lt_of_le hge with heq | hlt
      · have hwhole : Paired chunk n := Or.inl (heq ▸ Nat.mul_mod_right _ _)
        rw [doneNeurons, if_pos hwhole]
        exact hge
      · omega
    rw [Nat.min_eq_right hge, Nat.min_eq_right (Nat.le_add_right n chunk),
      Nat.sub_eq_zero_of_le ((Nat.min_le_left _ _).trans hnone), List.range'_zero,
      Nat.sub_self, if_neg (by omega), show (n - chunk % 2 + 1 - n) / 2 = 0 by omega]
    rfl

theorem le_doneNeurons (chunk n : Nat) : n ≤ doneNeurons chunk n := by
  unfold doneNeurons
  split <;> omega

/-- The chunks of the cores have room for the neuron too many. -/
theorem doneNeurons_le {cores : Nat} (h : n ≤ cores * chunk) : doneNeurons chunk n ≤ cores * chunk := by
  unfold doneNeurons
  split
  · exact h
  next hpaired =>
    refine Nat.succ_le_of_lt (Nat.lt_of_le_of_ne h fun heq => hpaired (Or.inl ?_))
    rw [heq, Nat.mul_mod_left]

end

/-! ## What it computes -/

section
variable {a : LinearArgs} {i k : Nat} {m m' n : Memory}

/-- The neurons that so many cores do. -/
def LinearArgs.done (a : LinearArgs) (numCores : Nat) : Nat :=
  doneNeurons (coreChunk numCores.log2 numCores a.numONeurons) a.numONeurons

def LinearArgs.outputCells (a : LinearArgs) (numCores : Nat) : Set Nat :=
  cells a.pOut (4 * a.done numCores)

/-- The input, the weights and, where there are any, the biases. -/
def LinearArgs.readCells (a : LinearArgs) (numCores : Nat) : Set Nat :=
  cells a.pIn a.dimVec ∪ (cells a.pWeight (a.done numCores * a.dimVec) ∪
    {z | ∃ pBias ∈ a.pBias, z ∈ cells pBias (4 * a.done numCores)})

/-- The sum of a neuron, as far as 32 bits go. -/
def LinearArgs.result (a : LinearArgs) (m : Memory) (i : Nat) : Int32 :=
  a.bias m i + .ofInt (Dot.total (fun q => m (a.pIn + q))
    (fun q => m (a.pWeight + i * a.dimVec + q)) a.dimVec)

theorem int32At_congr {p : Nat} (h : ∀ b < 4, m (p + b) = m' (p + b)) : int32At m p = int32At m' p := by
  rw [int32At, int32At, Bytes.segment_congr h]

theorem bias_congr {numCores : Nat} (h : Set.EqOn m m' (a.readCells numCores))
    (hi : i < a.done numCores) : a.bias m i = a.bias m' i := by
  unfold LinearArgs.bias
  cases hbias : a.pBias with
  | none => rfl
  | some pBias =>
    refine int32At_congr fun b hb => h (Or.inr (Or.inr ⟨pBias, hbias, ?_⟩))
    exact ⟨by omega, by omega⟩

theorem weight_cells {numCores q : Nat} (hi : i < a.done numCores) (hq : q < a.dimVec) :
    a.pWeight + i * a.dimVec + q ∈ cells a.pWeight (a.done numCores * a.dimVec) := by
  have : (i + 1) * a.dimVec ≤ a.done numCores * a.dimVec := Nat.mul_le_mul_right _ hi
  rw [Nat.add_one_mul] at this
  exact ⟨by omega, by omega⟩

theorem linear_sum_congr {numCores : Nat} (h : Set.EqOn m m' (a.readCells numCores))
    (hi : i < a.done numCores) : a.sum m i = a.sum m' i := by
  rw [LinearArgs.sum, LinearArgs.sum, bias_congr h hi]
  exact Dot.dot_congr (fun q hq => h (Or.inl (add_mem_cells hq)))
    (fun q hq => h (Or.inr (Or.inl (weight_cells hi hq)))) _

/-- A neuron is written from what is read and nothing else. -/
theorem neuron_within {numCores : Nat} (hi : i < a.done numCores) : ∀ s ∈ a.neuron i,
    Within (cells (a.pOut + 4 * i) 4) (a.readCells numCores) s := by
  intro s hs
  obtain ⟨b, hb, rfl⟩ := List.mem_map.mp hs
  refine ⟨add_mem_cells (List.mem_range.mp hb), fun m m' heq => ?_⟩
  simp only [linear_sum_congr heq hi]

theorem neuron_outputCells {numCores : Nat} (hi : i < a.done numCores) :
    cells (a.pOut + 4 * i) 4 ⊆ a.outputCells numCores := by
  intro z hz
  rw [mem_cells] at hz
  rw [LinearArgs.outputCells, mem_cells]
  omega

variable (h : Disjoint (a.outputCells (2 ^ k)) (a.readCells (2 ^ k)))
include h

/-- **A neuron that is done holds its sum.** -/
theorem run_neuron (hi : i < a.done (2 ^ k)) (m : Memory) :
    int32At (run (a.neuron i) m) (a.pOut + 4 * i) = a.result m i := by
  have hdisj := Set.disjoint_of_subset_left (neuron_outputCells hi) h
  have hbyte : ∀ b < 4, run (a.neuron i) m (a.pOut + 4 * i + b) =
      (Bytes.toLE32 (a.sum m i).toUInt32).getD b 0 := by
    intro b hb
    refine run_of_mem (neuron_within hi) hdisj (fun s hs t ht heq => ?_)
      (List.mem_map.mpr ⟨b, List.mem_range.mpr hb, rfl⟩)
    obtain ⟨c, -, rfl⟩ := List.mem_map.mp hs
    obtain ⟨d, -, rfl⟩ := List.mem_map.mp ht
    rw [show c = d from Nat.add_left_cancel heq]
  have hword : Bytes.segment (run (a.neuron i) m) (a.pOut + 4 * i) 4 =
      Bytes.toLE32 (a.sum m i).toUInt32 := by
    refine List.ext_getElem (by simp) fun b hb hb' => ?_
    rw [Bytes.segment_getElem, hbyte b (by simpa using hb), List.getD_eq_getElem _ _ hb']
  rw [int32At, hword, Bytes.ofLE32_toLE32, LinearArgs.sum, Dot.dot_eq]
  rfl

theorem pulpNnLinearU8I32I8_value (hrun : pulpNnLinearU8I32I8 a (2 ^ k) m n) :
    (∀ i < a.done (2 ^ k), int32At n (a.pOut + 4 * i) = a.result m i) ∧
      ∀ z, z ∉ a.outputCells (2 ^ k) → n z = m z := by
  have hshares := shares_block (doneNeurons_le
    (le_mul_coreChunk (n := a.numONeurons) (Nat.log2_two_pow (n := k)).le))
  unfold pulpNnLinearU8I32I8 at hrun
  simp only [neurons_eq_block] at hrun
  obtain ⟨hneurons, hframe⟩ := (Phase.units hrun hshares).unit
    (fun i => cells (a.pOut + 4 * i) 4)
    (fun i => cells (a.pOut + 4 * i) 4 ∪ a.readCells (2 ^ k))
    (fun i hi s hs => (neuron_within hi s hs).mono subset_rfl Set.subset_union_right)
    fun i hi j _ hij => by
      have hread := Set.disjoint_of_subset_left (neuron_outputCells hi) h
      refine Set.disjoint_union_right.mpr ⟨?_, hread⟩
      rw [Nat.mul_comm 4 i, Nat.mul_comm 4 j]
      exact cells_disjoint hij
  refine ⟨fun i hi => ?_, fun z hz => hframe z fun i hi hmem => hz (neuron_outputCells hi hmem)⟩
  rw [← run_neuron h hi m]
  exact int32At_congr fun b hb => hneurons i hi (Or.inl (add_mem_cells hb))

/-- **What the linear kernel does**, however the cores take turns: it comes to its end, and each
of its neurons, and where the shares do not go in pairs one behind them, holds its sum. -/
theorem pulpNnLinearU8I32I8_spec (m : Memory) :
    (∃ n, pulpNnLinearU8I32I8 a (2 ^ k) m n) ∧ a.numONeurons ≤ a.done (2 ^ k) ∧
      ∀ n, pulpNnLinearU8I32I8 a (2 ^ k) m n →
        (∀ i < a.done (2 ^ k), int32At n (a.pOut + 4 * i) = a.result m i) ∧
        ∀ z, z ∉ a.outputCells (2 ^ k) → n z = m z :=
  ⟨exists_phase _ m, le_doneNeurons _ _, fun _ hrun => pulpNnLinearU8I32I8_value h hrun⟩

end

/-- Three neurons of five weights. -/
def threeNeurons : LinearArgs where
  pIn := 0
  pBias := none
  pOut := 100
  pWeight := 10
  dimVec := 5
  numONeurons := 3

/-- Two cores do a fourth one. -/
theorem pulpNnLinearU8I32I8_spec_fourth :
    ∃ n, pulpNnLinearU8I32I8 threeNeurons (2 ^ 1) UInt8.ofNat n ∧
      int32At n (threeNeurons.pOut + 4 * 3) = 280 := by
  have hdisj : Disjoint (threeNeurons.outputCells (2 ^ 1)) (threeNeurons.readCells (2 ^ 1)) := by
    refine Set.disjoint_union_right.mpr ⟨cells_apart (by decide),
      Set.disjoint_union_right.mpr ⟨cells_apart (by decide), Set.disjoint_left.mpr ?_⟩⟩
    rintro z - ⟨pBias, hbias, -⟩
    cases hbias
  obtain ⟨⟨n, hrun⟩, -, hall⟩ := pulpNnLinearU8I32I8_spec hdisj UInt8.ofNat
  exact ⟨n, hrun, ((hall n hrun).1 3 (by decide)).trans (by decide)⟩

end AiDeck.Network
