import Mathlib
import AiDeck.Images.Kernels
import AiDeck.Lib.Share

/-! # When the cores do the work of the serial kernel

A core's share is rounded up by `total + nPE - 1`. As long as that sum fits in 32
bits the shares are the blocks of the whole loop; when it wraps around, the share
is empty and no core does anything. -/
namespace AiDeck.Images

open AiDeck.Lib.Share

/-! ## One share -/

theorem upto_toNat (start upperBound : UInt32) :
    (upto start upperBound).map UInt32.toNat =
      List.range' start.toNat (upperBound.toNat - start.toNat) := by
  have hub := upperBound.toNat_lt
  rw [upto, List.map_map, List.map_congr_left (g := id), List.map_id]
  intro i hi
  have hlt := List.mem_range'_1.mp hi
  simp only [Function.comp_apply, UInt32.toNat_ofNat', id_eq]
  omega

theorem mem_upto {start upperBound i : UInt32} :
    i ∈ upto start upperBound ↔ start.toNat ≤ i.toNat ∧ i.toNat < upperBound.toNat := by
  rw [← List.mem_map_of_injective (f := UInt32.toNat) (fun _ _ => UInt32.toNat_inj.mp),
    upto_toNat, List.mem_range'_1]
  omega

/-- The clipped upper bound. -/
theorem clip_toNat (total u : UInt32) :
    (if u > total then total else u).toNat = min total.toNat u.toNat := by
  split
  next h => rw [Nat.min_eq_left (UInt32.lt_iff_toNat_lt.mp h).le]
  next h => rw [Nat.min_eq_right (UInt32.le_iff_toNat_le.mp (UInt32.not_lt.mp h))]

section
variable {total nPE coreId : UInt32}

/-- The rounded-up share, in the unsigned arithmetic of the kernels. -/
theorem perCore_toNat (nPE : UInt32) (htotal : 0 < total.toNat) :
    ((total + nPE - 1) / nPE).toNat =
      (total.toNat + nPE.toNat - 1) % 2 ^ 32 / nPE.toNat := by
  rw [UInt32.toNat_div, UInt32.toNat_sub, UInt32.toNat_add, UInt32.toNat_one]
  congr 1
  omega

theorem share_toNat (htotal : 0 < total.toNat) (h : total.toNat + nPE.toNat ≤ 2 ^ 32)
    (hid : coreId < nPE) :
    (share total nPE coreId).map UInt32.toNat =
      block total.toNat ((total.toNat + nPE.toNat - 1) / nPE.toNat) coreId.toNat := by
  have hid := UInt32.lt_iff_toNat_lt.mp hid
  have hper := perCore_toNat nPE htotal
  rw [Nat.mod_eq_of_lt (by omega)] at hper
  have hsum := Nat.mul_div_le (total.toNat + nPE.toNat - 1) nPE.toNat
  have hnext : (coreId.toNat + 1) * ((total.toNat + nPE.toNat - 1) / nPE.toNat) < 2 ^ 32 :=
    calc _ ≤ nPE.toNat * ((total.toNat + nPE.toNat - 1) / nPE.toNat) := Nat.mul_le_mul_right _ hid
      _ < 2 ^ 32 := by omega
  have hstart : (coreId * ((total + nPE - 1) / nPE)).toNat =
      coreId.toNat * ((total.toNat + nPE.toNat - 1) / nPE.toNat) := by
    rw [UInt32.toNat_mul, hper, Nat.mod_eq_of_lt]
    exact Nat.lt_of_le_of_lt (Nat.mul_le_mul_right _ (Nat.le_succ _)) hnext
  have hbound : ((coreId + 1) * ((total + nPE - 1) / nPE)).toNat =
      (coreId.toNat + 1) * ((total.toNat + nPE.toNat - 1) / nPE.toNat) := by
    have hone : (coreId + 1).toNat = coreId.toNat + 1 := by
      rw [UInt32.toNat_add, UInt32.toNat_one, Nat.mod_eq_of_lt]
      have hlt := nPE.toNat_lt
      omega
    rw [UInt32.toNat_mul, hper, hone, Nat.mod_eq_of_lt hnext]
  rw [share, upto_toNat, clip_toNat, hstart, hbound]
  rfl

/-- A sum that does not fit is smaller than `nPE` after it wrapped around. -/
theorem share_wrapped (htotal : 0 < total.toNat) (h : 2 ^ 32 < total.toNat + nPE.toNat) :
    share total nPE coreId = [] := by
  have hlt := total.toNat_lt
  have hk := nPE.toNat_lt
  have hper : (total + nPE - 1) / nPE = 0 := by
    apply UInt32.toNat_inj.mp
    rw [perCore_toNat nPE htotal]
    exact Nat.div_eq_of_lt (by omega)
  have hnot : ¬ (0 : UInt32) > total := by
    simp [UInt32.lt_iff_toNat_lt]
  simp only [share, hper, UInt32.mul_zero, if_neg hnot]
  rfl

theorem share_lt {i : UInt32} (hi : i ∈ share total nPE coreId) : i.toNat < total.toNat := by
  have hlt := (mem_upto.mp hi).2
  rw [clip_toNat] at hlt
  exact Nat.lt_of_lt_of_le hlt (Nat.min_le_left _ _)

end

/-! ## All shares -/

section
variable {total nPE : UInt32} {size : Nat} {serial : Stores} {core : UInt32 → Stores}
  {unit : Nat → Stores} (htotal : 0 < total.toNat) (hnPE : 0 < nPE.toNat)
  (hserial : serial = (List.range total.toNat).flatMap unit)
  (hcore : ∀ coreId, core coreId = (share total nPE coreId).flatMap fun i => unit i.toNat)
include htotal hnPE hserial hcore

/-- One core after another does what the serial kernel does. -/
theorem cores_in_order (h : total.toNat + nPE.toNat ≤ 2 ^ 32) :
    (upto 0 nPE).flatMap core = serial := by
  have hblock : ∀ coreId ∈ upto 0 nPE, core coreId =
      (block total.toNat ((total.toNat + nPE.toNat - 1) / nPE.toNat) coreId.toNat).flatMap unit := by
    intro coreId hid
    have hlt := UInt32.lt_iff_toNat_lt.mpr (mem_upto.mp hid).2
    rw [hcore, ← share_toNat htotal h hlt, List.flatMap_map]
  have hids := upto_toNat 0 nPE
  rw [UInt32.toNat_zero, Nat.sub_zero, ← List.range_eq_range'] at hids
  rw [List.flatMap_congr hblock, hserial, ← flatMap_share total.toNat hnPE, ← hids,
    List.flatMap_assoc, List.flatMap_map]

/-- The work is shared out without gap or overlap exactly when the rounding does not overflow. -/
theorem agrees_iff (hsize : 0 < size)
    (hpositions : serial.map Prod.fst = (List.range size).map ((↑) : Nat → Int)) :
    Agrees serial core nPE size ↔ total.toNat + nPE.toNat ≤ 2 ^ 32 := by
  constructor
  · intro hagrees
    by_contra hover
    obtain ⟨coreId, ⟨-, hwrites⟩, -⟩ := hagrees.once 0 hsize
    rw [hcore, share_wrapped htotal (by omega)] at hwrites
    simp at hwrites
  · intro h
    have hall := cores_in_order htotal hnPE hserial hcore h
    have hnodup : (serial.map Prod.fst).Nodup := by
      rw [hpositions]
      exact List.nodup_range.map Nat.cast_injective
    constructor
    · intro order horder output
      have hperm : (order.flatMap core).Perm serial := by
        rw [← hall]
        exact horder.flatMap_right core
      exact store_perm hperm ((hperm.map Prod.fst).nodup_iff.mpr hnodup) output
    · intro p hp
      have hmem : (p : Int) ∈ (upto 0 nPE).flatMap fun coreId => (core coreId).map Prod.fst := by
        rw [← List.map_flatMap, hall, hpositions]
        exact List.mem_map_of_mem (List.mem_range.mpr hp)
      rw [← hall, List.map_flatMap] at hnodup
      have hone := existsUnique_of_nodup hnodup hmem
      simpa [mem_upto, UInt32.lt_iff_toNat_lt] using hone

end

/-! ## The two kernels -/

theorem stores_positions (signed : Bool) (input : Int → UInt8) (grayscale : Bool) (p : Pixel) :
    (p.stores signed input grayscale).map Prod.fst =
      (List.range (channels grayscale)).map fun j : Nat => p.idx * channels grayscale + j := by
  cases grayscale <;> by_cases hborder : p.border <;>
    simp [Pixel.stores, channels, hborder, List.range_succ]

section
variable (signed : Bool) (a : KernelInstance)
  (hsize : a.width.toNat * a.height.toNat < 2 ^ 30)

theorem toInt_ne_zero (u : UInt32) : decide (toInt u ≠ 0) = decide (u ≠ 0) := by
  have hzero : toInt u = 0 ↔ u = 0 := by
    rw [toInt, ← Int32.toInt_zero, Int32.toInt_inj]
    exact ⟨fun h => UInt32.toBitVec_inj.mp (congrArg Int32.toBitVec h), fun h => by rw [h]; rfl⟩
  rw [decide_eq_decide, Ne, Ne, hzero]

/-- The stores of a row. -/
def rowStores (y : Nat) : Stores :=
  (List.range a.width.toNat).flatMap fun x : Nat =>
    (pixel a.width.toNat a.height.toNat y x).stores signed a.srcBuffer (a.grayscale ≠ 0)

theorem demosaicking_rows :
    demosaicking signed a.srcBuffer a.width.toNat a.height.toNat (toInt a.grayscale) =
      (List.range a.height.toNat).flatMap (rowStores signed a) := by
  rw [demosaicking, toInt_ne_zero, Int.toNat_natCast, Int.toNat_natCast]
  rfl

theorem demosaicking_positions :
    ((List.range a.height.toNat).flatMap (rowStores signed a)).map Prod.fst =
      (List.range (a.height.toNat * a.width.toNat * channels (a.grayscale ≠ 0))).map
        ((↑) : Nat → Int) := by
  rw [← flatMap_rows, ← flatMap_rows, List.flatMap_assoc, List.map_flatMap, List.map_flatMap]
  apply List.flatMap_congr
  intro y hy
  rw [rowStores, List.map_flatMap, List.flatMap_map, List.map_flatMap]
  apply List.flatMap_congr
  intro x hx
  rw [stores_positions, List.map_map]
  apply List.map_congr_left
  intro j hj
  simp [pixel]

include hsize in
theorem clusterDemosaicking_rows (coreId : UInt32) :
    clusterDemosaicking signed a coreId =
      (share a.height a.nPE coreId).flatMap fun y => rowStores signed a y.toNat := by
  apply List.flatMap_congr
  intro y hy
  apply List.flatMap_congr
  intro x hx
  rw [clusterPixel_eq hsize (List.mem_range.mp hx) (share_lt hy)]

/-- The store for one position of the image. -/
def inverted (i : Nat) : Int × UInt8 :=
  ((i : Int), UInt8.ofInt (255 - promote signed (a.srcBuffer i)))

theorem inverting_eq :
    inverting signed a.srcBuffer a.width.toNat a.height.toNat =
      (List.range (a.height.toNat * a.width.toNat)).flatMap fun i => [inverted signed a i] := by
  rw [← flatMap_rows, List.flatMap_assoc, inverting, Int.toNat_natCast, Int.toNat_natCast]
  apply List.flatMap_congr
  intro y hy
  rw [List.flatMap_map, ← List.map_eq_flatMap]
  apply List.map_congr_left
  intro x hx
  simp [inverted]

theorem demosaickingAgrees_iff (hw : 1 ≤ a.width.toNat) (hh : 1 ≤ a.height.toNat)
    (hsize : a.width.toNat * a.height.toNat < 2 ^ 30) (hnPE : 1 ≤ a.nPE.toNat) :
    DemosaickingAgrees signed a ↔ a.height.toNat + a.nPE.toNat ≤ 2 ^ 32 := by
  have hchannels : 0 < channels (a.grayscale ≠ 0) := by
    rw [channels]
    split <;> decide
  apply agrees_iff hh hnPE (demosaicking_rows signed a) (clusterDemosaicking_rows signed a hsize)
  · exact Nat.mul_pos (Nat.mul_pos hh hw) hchannels
  · rw [demosaicking_rows, demosaicking_positions]

theorem invertingAgrees_iff (hw : 1 ≤ a.width.toNat) (hh : 1 ≤ a.height.toNat)
    (hsize : a.width.toNat * a.height.toNat < 2 ^ 30) (hnPE : 1 ≤ a.nPE.toNat) :
    InvertingAgrees signed a ↔ a.width.toNat * a.height.toNat + a.nPE.toNat ≤ 2 ^ 32 := by
  have htotal : (a.width * a.height).toNat = a.width.toNat * a.height.toNat := by
    rw [UInt32.toNat_mul, Nat.mod_eq_of_lt (by omega)]
  have hpos : 0 < a.height.toNat * a.width.toNat := Nat.mul_pos hh hw
  have hserial : inverting signed a.srcBuffer a.width.toNat a.height.toNat =
      (List.range (a.width * a.height).toNat).flatMap fun i => [inverted signed a i] := by
    rw [inverting_eq, htotal, Nat.mul_comm]
  have hcore : ∀ coreId, clusterInverting signed a coreId =
      (share (a.width * a.height) a.nPE coreId).flatMap fun i => [inverted signed a i.toNat] := by
    intro coreId
    rw [clusterInverting, List.map_eq_flatMap]
    rfl
  rw [← htotal]
  apply agrees_iff _ hnPE hserial hcore hpos
  · rw [inverting_eq, ← List.map_eq_flatMap, List.map_map]
    rfl
  · rw [htotal, Nat.mul_comm]
    exact hpos

/-- **When the cluster kernels equal the serial ones**: the image size and the
number of cores have a sum that fits in 32 bits. -/
theorem cluster_agrees_iff (hw : 1 ≤ a.width.toNat) (hh : 1 ≤ a.height.toNat)
    (hsize : 3 * a.width.toNat * a.height.toNat < 2 ^ 31) (hnPE : 1 ≤ a.nPE.toNat) :
    (DemosaickingAgrees signed a ↔ a.height.toNat + a.nPE.toNat ≤ 2 ^ 32) ∧
    (InvertingAgrees signed a ↔ a.width.toNat * a.height.toNat + a.nPE.toNat ≤ 2 ^ 32) := by
  have hsize' : a.width.toNat * a.height.toNat < 2 ^ 30 := by
    rw [Nat.mul_assoc] at hsize
    omega
  exact ⟨demosaickingAgrees_iff signed a hw hh hsize' hnPE,
    invertingAgrees_iff signed a hw hh hsize' hnPE⟩

end

/-- Two rows on eight cores. -/
def eightCores : KernelInstance := ⟨fun i => .ofInt i, 3, 2, 8, 0⟩

theorem cluster_agrees_eightCores :
    DemosaickingAgrees false eightCores ∧ InvertingAgrees false eightCores := by
  have h := cluster_agrees_iff false eightCores (by decide) (by decide) (by decide) (by decide)
  exact ⟨h.1.mpr (by decide), h.2.mpr (by decide)⟩

/-- The same image on more cores than the rounding allows. -/
def manyCores : KernelInstance := { eightCores with nPE := 0xFFFFFFFF }

theorem cluster_idle_manyCores :
    ¬ DemosaickingAgrees false manyCores ∧ ¬ InvertingAgrees false manyCores := by
  constructor
  · rw [demosaickingAgrees_iff false manyCores (by decide) (by decide) (by decide) (by decide)]
    decide
  · rw [invertingAgrees_iff false manyCores (by decide) (by decide) (by decide) (by decide)]
    decide

end AiDeck.Images
