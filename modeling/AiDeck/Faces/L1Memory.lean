import Mathlib
import AiDeck.Lib.Regions

/-! # The fast memory of the face detection

`faceDet_cluster_init` hands out one pool piece by piece and never takes anything back.
Two of the pieces take the stages of the cascade by turns; their size is counted by
`biggest_cascade_stage`, with the sizes of the pointers in the place of those of the
elements, while `async_cascade_stage_to_l1` leaves gaps behind the bytes it copies. -/
namespace AiDeck.Faces

open AiDeck.Lib AiDeck.Lib.Region

/-! ## The allocator -/

/-- `FACE_DETECT_L1_MEMORY_POOL_SIZE`. -/
def poolSize : UInt32 := 53 * 1024

/-- `__l1_malloc_private`: the offset afterwards, and where in the pool the piece begins. -/
def l1MallocPrivate (l1Offset size : UInt32) : UInt32 × Option UInt32 :=
  let offset := l1Offset
  let l1Offset := l1Offset + size
  if l1Offset > poolSize then (l1Offset, none) else (l1Offset, some offset)

/-- What a sequence of requests is given. -/
def granted : UInt32 → List UInt32 → List (Option Region)
  | _, [] => []
  | l1Offset, size :: sizes =>
    let (l1Offset, piece) := l1MallocPrivate l1Offset size
    piece.map (⟨·.toNat, size.toNat⟩) :: granted l1Offset sizes

/-- **The pieces lie one after another, as far as the pool goes**; from the first request that
is refused on, all are. -/
theorem granted_eq {l1Offset : UInt32} {sizes : List UInt32}
    (hsum : l1Offset.toNat + (sizes.map UInt32.toNat).sum < 2 ^ 32) :
    granted l1Offset sizes = (layout l1Offset.toNat (sizes.map UInt32.toNat)).map fun r =>
      if r.start + r.size ≤ poolSize.toNat then some r else none := by
  induction sizes generalizing l1Offset with
  | nil => rfl
  | cons size sizes ih =>
    rw [List.map_cons, List.sum_cons] at hsum
    have hnext : (l1Offset + size).toNat = l1Offset.toNat + size.toNat := by
      rw [UInt32.toNat_add, Nat.mod_eq_of_lt (by omega)]
    have hrest := @ih (l1Offset + size) (by omega)
    rw [hnext] at hrest
    rw [granted, l1MallocPrivate, List.map_cons, layout, List.map_cons, ← hrest]
    by_cases hover : l1Offset + size > poolSize
    · have hgt := UInt32.lt_iff_toNat_lt.mp hover
      rw [hnext] at hgt
      rw [if_pos hover, if_neg (Nat.not_le.mpr hgt)]
      rfl
    · have hle := UInt32.le_iff_toNat_le.mp (UInt32.not_lt.mp hover)
      rw [hnext] at hle
      rw [if_neg hover, if_pos hle]
      rfl

/-! ## The buffers of the stages -/

/-- The sizes of a `single_cascade_t`. -/
structure StageSizes where
  stageSize : UInt16
  rectanglesSize : UInt16
  deriving DecidableEq

/-- `cur_layer` in `biggest_cascade_stage`; a pointer takes four bytes. -/
def StageSizes.layer (s : StageSizes) : Nat :=
  2 + 2 + s.stageSize.toNat * (4 + 4 + 4 + 4) + s.rectanglesSize.toNat * 4 +
    s.rectanglesSize.toNat / 4 * 4

def biggestCascadeStage (stages : List StageSizes) : Nat :=
  stages.foldl (fun biggest s => if s.layer > biggest then s.layer else biggest) 0

/-- `sizeof(single_cascade_t)`: two sizes and six pointers. -/
def sizeofSingleCascade : Nat := 2 + 2 + 6 * 4

/-- What `async_cascade_stage_to_l1` writes to a buffer: the record, then the six arrays. -/
def asyncCascadeStageToL1 (cascadeL1 : Nat) (s : StageSizes) : List Region :=
  let stageSize := s.stageSize.toNat
  let rectanglesSize := s.rectanglesSize.toNat
  let thresholds := cascadeL1 + sizeofSingleCascade
  let alpha1 := thresholds + 2 * stageSize
  let alpha2 := alpha1 + 2 * stageSize
  let rectNum := alpha2 + 2 * stageSize
  let weights := rectNum + 2 * (stageSize + 1)
  let rectangles := weights + rectanglesSize * 4
  [⟨cascadeL1, sizeofSingleCascade⟩, ⟨thresholds, 2 * stageSize⟩, ⟨alpha1, 2 * stageSize⟩,
    ⟨alpha2, 2 * stageSize⟩, ⟨rectNum, 2 * (stageSize + 1)⟩, ⟨weights, rectanglesSize / 4⟩,
    ⟨rectangles, rectanglesSize⟩]

theorem layer_le_biggest {stages : List StageSizes} {s : StageSizes} (hs : s ∈ stages) :
    s.layer ≤ biggestCascadeStage stages := by
  have hmono : ∀ (l : List StageSizes) (b : Nat),
      b ≤ l.foldl (fun biggest s => if s.layer > biggest then s.layer else biggest) b := by
    intro l
    induction l with
    | nil => exact fun b => le_rfl
    | cons t l ih =>
      intro b
      refine le_trans ?_ (ih _)
      change b ≤ if t.layer > b then t.layer else b
      split <;> omega
  obtain ⟨before, after, rfl⟩ := List.append_of_mem hs
  rw [biggestCascadeStage, List.foldl_append, List.foldl_cons]
  refine le_trans ?_ (hmono after _)
  change s.layer ≤ if s.layer > _ then s.layer else _
  split <;> omega

/-- The two counts of the bytes agree that a stage fits from four classifiers on. -/
theorem copies_fit_iff (s : StageSizes) (cascadeL1 : Nat) :
    (∀ r ∈ asyncCascadeStageToL1 cascadeL1 s, r.Within ⟨cascadeL1, s.layer⟩) ↔
      4 ≤ s.stageSize.toNat := by
  simp only [asyncCascadeStageToL1, List.forall_mem_cons, List.not_mem_nil, false_implies,
    implies_true, and_true, Region.Within, StageSizes.layer, sizeofSingleCascade]
  omega

theorem copies_pairwise (s : StageSizes) (cascadeL1 : Nat) :
    (asyncCascadeStageToL1 cascadeL1 s).Pairwise Apart := by
  simp only [asyncCascadeStageToL1, List.pairwise_cons, List.forall_mem_cons, List.not_mem_nil,
    false_implies, implies_true, and_true, Region.Apart, sizeofSingleCascade, List.Pairwise.nil]
  omega

/-- **Bringing a stage to its buffer touches nothing else**: the copies lie apart from each
other, within the pool, and apart from every other piece that was handed out. -/
theorem stage_copies_apart {l1Offset : UInt32} {sizes : List UInt32} {i j : Nat}
    {buffer other : Region} {stages : List StageSizes} {s : StageSizes}
    (hsum : l1Offset.toNat + (sizes.map UInt32.toNat).sum < 2 ^ 32)
    (hbuffer : (granted l1Offset sizes)[i]? = some (some buffer))
    (hother : (granted l1Offset sizes)[j]? = some (some other)) (hij : i ≠ j)
    (hsize : buffer.size = biggestCascadeStage stages) (hs : s ∈ stages)
    (hfour : 4 ≤ s.stageSize.toNat) :
    (asyncCascadeStageToL1 buffer.start s).Pairwise Apart ∧
      ∀ r ∈ asyncCascadeStageToL1 buffer.start s,
        r.start + r.size ≤ poolSize.toNat ∧ r.Apart other := by
  -- a granted piece is one of the layout, and it ends within the pool
  have hpiece : ∀ {k : Nat} {r : Region}, (granted l1Offset sizes)[k]? = some (some r) →
      (layout l1Offset.toNat (sizes.map UInt32.toNat))[k]? = some r ∧
        r.start + r.size ≤ poolSize.toNat := by
    intro k r hk
    rw [granted_eq hsum, List.getElem?_map, Option.map_eq_some_iff] at hk
    obtain ⟨r', hr', heq⟩ := hk
    split at heq
    next hfit =>
      obtain rfl := Option.some.inj heq
      exact ⟨hr', hfit⟩
    next => cases heq
  obtain ⟨hi, hfit⟩ := hpiece hbuffer
  obtain ⟨hj, -⟩ := hpiece hother
  have hapart : buffer.Apart other := by
    have hpair := List.pairwise_iff_getElem.mp
      (layout_pairwise l1Offset.toNat (sizes.map UInt32.toNat))
    obtain ⟨hi', rfl⟩ := List.getElem?_eq_some_iff.mp hi
    obtain ⟨hj', rfl⟩ := List.getElem?_eq_some_iff.mp hj
    rcases Nat.lt_or_gt_of_ne hij with hlt | hgt
    · exact hpair i j hi' hj' hlt
    · exact (hpair j i hj' hi' hgt).symm
  refine ⟨copies_pairwise s buffer.start, fun r hr => ?_⟩
  have hwithin : r.Within buffer := by
    refine ((copies_fit_iff s buffer.start).mpr hfour r hr).trans ⟨le_rfl, ?_⟩
    have := layer_le_biggest hs
    simp only
    omega
  exact ⟨hwithin.2.trans hfit, hwithin.apart hapart⟩

/-- The two buffers for a cascade of two stages. -/
theorem stage_copies_apart_two_stages : (asyncCascadeStageToL1 120 ⟨9, 72⟩).Pairwise Apart :=
  (@stage_copies_apart 0 [20, 100, 900, 900] 2 3 ⟨120, 900⟩ ⟨1020, 900⟩
    [⟨16, 128⟩, ⟨9, 72⟩] ⟨9, 72⟩ (by decide) rfl rfl (by decide) rfl (by decide) (by decide)).1

end AiDeck.Faces
