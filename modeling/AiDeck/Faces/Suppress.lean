import Mathlib
import AiDeck.Lib.Eliminate

/-! # Suppression of responses that are not maximal

`non_max_suppress` marks a response as removed by the coordinates `-1`. A removed one
may still be compared until the loop over the others is done, with the coordinates
that `-1` is as an `unsigned short`; it overlaps nothing there. -/
namespace AiDeck.Faces

open AiDeck.Lib.Loop AiDeck.Lib.Eliminate

/-- `cascade_response_t`. -/
structure CascadeResponse where
  x : Int
  y : Int
  w : Int
  h : Int
  score : Int
  deriving DecidableEq

/-- `NON_MAX_THRES`. -/
def nonMaxThres : Int := 250

/-- An `int` passed as `unsigned short`. -/
def toUShort (v : Int) : Int := v % 2 ^ 16

/-- `rect_intersect_area`, which checks the width twice; the product is one of two `int`s. -/
def rectIntersectArea (aX aY aW aH bX bY bW bH : Int) : Int :=
  let x := max aX bX
  let y := max aY bY
  let sizeX := min (aX + aW) (bX + bW) - x
  let sizeY := min (aY + aH) (bY + bH) - y
  if sizeX ≤ 0 ∨ sizeX ≤ 0 then 0 else (sizeX * sizeY).bmod (2 ^ 32)

/-- The call of `rect_intersect_area` for two responses. -/
def intersection (a b : CascadeResponse) : Int :=
  rectIntersectArea (toUShort a.x) (toUShort a.y) (toUShort a.w) (toUShort a.h)
    (toUShort b.x) (toUShort b.y) (toUShort b.w) (toUShort b.h)

def CascadeResponse.removed (r : CascadeResponse) : CascadeResponse := { r with x := -1, y := -1 }

abbrev Responses := Nat → CascadeResponse

/-- The body of the inner loop. -/
def suppressPair (idx : Nat) (responses : Responses) (idxInt : Nat) : Responses :=
  if (responses idxInt).x = -1 ∨ idxInt = idx then responses
  else if intersection (responses idx) (responses idxInt) ≥ nonMaxThres then
    if (responses idxInt).score > (responses idx).score then
      Function.update responses idx (responses idx).removed
    else Function.update responses idxInt (responses idxInt).removed
  else responses

def nonMaxSuppress (responses : Responses) (responseIdx : Nat) : Responses :=
  (List.range responseIdx).foldl (fun responses idx =>
    if (responses idx).x = -1 then responses
    else (List.range responseIdx).foldl (suppressPair idx) responses) responses

/-! ## What overlaps -/

/-- The area that two responses have in common. -/
def overlap (a b : CascadeResponse) : Int :=
  max 0 (min (a.x + a.w) (b.x + b.w) - max a.x b.x) *
    max 0 (min (a.y + a.h) (b.y + b.h) - max a.y b.y)

theorem overlap_comm (a b : CascadeResponse) : overlap a b = overlap b a := by
  rw [overlap, overlap, min_comm (a.x + a.w), max_comm a.x, min_comm (a.y + a.h), max_comm a.y]

/-- A response within an image. -/
structure CascadeResponse.InImage (width height : Int) (r : CascadeResponse) : Prop where
  x : 0 ≤ r.x
  y : 0 ≤ r.y
  w : 0 ≤ r.w
  h : 0 ≤ r.h
  right : r.x + r.w ≤ width
  bottom : r.y + r.h ≤ height

/-- An image whose sides an `unsigned short` can hold, and whose area an `int` can. -/
structure Measurable (width height : Int) : Prop where
  wide : width < 2 ^ 16
  high : height < 2 ^ 16
  area : width * height < 2 ^ 31

theorem toUShort_of_lt {v : Int} (h : 0 ≤ v) (h' : v < 2 ^ 16) : toUShort v = v :=
  Int.emod_eq_of_lt h h'

/-- Two sizes multiply without overflow, of which one may be turned round. -/
theorem sizes_bmod {m n width height : Int} (hm : 0 < m) (hwidth : m ≤ width)
    (hlow : -height ≤ n) (hhigh : n ≤ height) (harea : width * height < 2 ^ 31) :
    (m * n).bmod (2 ^ 32) = m * n := by
  have hheight : m * height ≤ width * height := Int.mul_le_mul_of_nonneg_right hwidth (by omega)
  have hle : m * n ≤ m * height := Int.mul_le_mul_of_nonneg_left hhigh hm.le
  have hge : m * -height ≤ m * n := Int.mul_le_mul_of_nonneg_left hlow hm.le
  rw [Int.mul_neg] at hge
  exact Int.bmod_eq_of_le (by omega) (by omega)

section
variable {width height : Int} (hsize : Measurable width height)
include hsize

/-- The second check would be on the height; without it the product is not positive. -/
theorem intersection_iff {a b : CascadeResponse} (ha : a.InImage width height)
    (hb : b.InImage width height) : intersection a b ≥ nonMaxThres ↔ overlap a b ≥ nonMaxThres := by
  obtain ⟨hax, hay, haw, hah, har, hab⟩ := ha
  obtain ⟨hbx, hby, hbw, hbh, hbr, hbb⟩ := hb
  obtain ⟨hwidth, hheight, harea⟩ := hsize
  rw [intersection, toUShort_of_lt hax (by omega), toUShort_of_lt hay (by omega),
    toUShort_of_lt haw (by omega), toUShort_of_lt hah (by omega), toUShort_of_lt hbx (by omega),
    toUShort_of_lt hby (by omega), toUShort_of_lt hbw (by omega), toUShort_of_lt hbh (by omega),
    rectIntersectArea, overlap]
  have hX : min (a.x + a.w) (b.x + b.w) - max a.x b.x ≤ width := by omega
  have hY : min (a.y + a.h) (b.y + b.h) - max a.y b.y ≤ height := by omega
  have hY' : -height ≤ min (a.y + a.h) (b.y + b.h) - max a.y b.y := by omega
  generalize min (a.x + a.w) (b.x + b.w) - max a.x b.x = sizeX at hX
  generalize min (a.y + a.h) (b.y + b.h) - max a.y b.y = sizeY at hY hY'
  simp only [or_self]
  rcases Int.lt_or_le 0 sizeX with hx | hx
  · rw [if_neg (by omega), max_eq_right hx.le, sizes_bmod hx hX hY' hY harea]
    rcases Int.lt_or_le 0 sizeY with hy | hy
    · rw [max_eq_right hy.le]
    · have hneg := Int.mul_nonpos_of_nonneg_of_nonpos hx.le hy
      rw [max_eq_left hy, mul_zero, nonMaxThres]
      omega
  · rw [if_pos hx, max_eq_left hx, zero_mul]

/-- What is removed overlaps nothing. -/
theorem intersection_removed {a b : CascadeResponse} (hb : b.InImage width height) :
    ¬ intersection a.removed b ≥ nonMaxThres := by
  have hbx := hb.right
  have hwidth := hsize.wide
  have := hb.x
  have := hb.w
  have hx : toUShort (-1) = 2 ^ 16 - 1 := rfl
  rw [intersection, toUShort_of_lt hb.x (by omega), toUShort_of_lt hb.w (by omega),
    rectIntersectArea, CascadeResponse.removed, if_pos, nonMaxThres]
  · decide
  · simp only [hx, or_self]
    omega

end

/-- What is left of `n` responses: they are as they were or removed; those that are left do
not overlap too much; whoever is removed overlaps one that scores as high; and the first
of the best is left. -/
structure Suppressed (n : Nat) (responses out : Responses) : Prop where
  kept_or_removed : ∀ i, out i = responses i ∨ out i = (responses i).removed
  apart : ∀ i < n, ∀ j < n, i ≠ j → (out i).x ≠ -1 → (out j).x ≠ -1 →
    overlap (responses i) (responses j) < nonMaxThres
  beaten : ∀ i < n, (out i).x = -1 → ∃ j < n, j ≠ i ∧
    overlap (responses i) (responses j) ≥ nonMaxThres ∧ (responses i).score ≤ (responses j).score
  best : ∀ m < n, (∀ i < m, (responses i).score < (responses m).score) →
    (∀ i < n, (responses i).score ≤ (responses m).score) → out m = responses m

/-! ## The marks as a set -/

section
variable {responses : Responses} {n : Nat} {width height : Int}

/-- The responses of a set are removed, the others as they were. -/
def marked (responses : Responses) (out : Finset Nat) : Responses :=
  fun i => if i ∈ out then (responses i).removed else responses i

/-- Two of the responses overlap too much. -/
abbrev clash (responses : Responses) (i j : Nat) : Prop :=
  overlap (responses i) (responses j) ≥ nonMaxThres

theorem marked_score (out : Finset Nat) (i : Nat) :
    (marked responses out i).score = (responses i).score := by
  rw [marked]
  split <;> rfl

theorem marked_insert (out : Finset Nat) {i : Nat} (hi : i ∉ out) :
    Function.update (marked responses out) i (marked responses out i).removed =
      marked responses (insert i out) := by
  funext j
  by_cases hj : j = i
  · subst hj
    rw [Function.update_self, marked, marked, if_neg hi, if_pos (Finset.mem_insert_self j out)]
  · rw [Function.update_of_ne hj, marked, marked]
    simp only [Finset.mem_insert, hj, false_or]

variable (hin : ∀ i < n, (responses i).InImage width height)
include hin

theorem marked_x {out : Finset Nat} {i : Nat} (hi : i < n) :
    (marked responses out i).x = -1 ↔ i ∈ out := by
  have hx := (hin i hi).x
  rw [marked]
  split
  next hmem => exact iff_of_true rfl hmem
  next hnot => exact iff_of_false (by omega) hnot

variable (hsize : Measurable width height)
include hsize

/-- The inner loop compares as the candidates are compared. -/
theorem suppressPair_marked {i j : Nat} (hi : i < n) (hj : j < n) (out : Finset Nat) :
    suppressPair i (marked responses out) j =
      marked responses (against (clash responses) (fun i => (responses i).score) i out j) := by
  have hx : (marked responses out j).x = -1 ↔ j ∈ out := marked_x hin hj
  rw [suppressPair, marked_score, marked_score, against]
  by_cases hout : j ∈ out ∨ j = i
  · rw [if_pos (hout.imp_left hx.mpr), if_pos (by tauto)]
  · rw [if_neg (mt (Or.imp_left hx.mp) hout)]
    have hj' : marked responses out j = responses j := if_neg (by tauto)
    by_cases hiout : i ∈ out
    · have hi' : marked responses out i = (responses i).removed := if_pos hiout
      rw [hi', hj', if_neg (intersection_removed hsize (hin j hj)), if_pos (by tauto)]
    · have hi' : marked responses out i = responses i := if_neg hiout
      rw [if_neg (by tauto : ¬ (j ∈ out ∨ j = i ∨ i ∈ out)), hi', hj']
      by_cases hclash : clash responses i j
      · rw [if_pos ((intersection_iff hsize (hin i hi) (hin j hj)).mpr hclash), if_pos hclash]
        split
        · rw [← marked_insert out hiout, hi']
        · rw [← marked_insert out (by tauto : j ∉ out), hj']
      · rw [if_neg (mt (intersection_iff hsize (hin i hi) (hin j hj)).mp hclash), if_neg hclash]

/-- The loops of the code eliminate as the candidates are eliminated. -/
theorem nonMaxSuppress_marked :
    nonMaxSuppress responses n =
      marked responses (eliminate (clash responses) (fun i => (responses i).score) n) := by
  have hfold : ∀ {l : List Nat} {f : Responses → Nat → Responses} {g : Finset Nat → Nat → Finset Nat}
      (out : Finset Nat), (∀ i ∈ l, ∀ t, f (marked responses t) i = marked responses (g t i)) →
      l.foldl f (marked responses out) = marked responses (l.foldl g out) := by
    intro l f g out h
    induction l generalizing out with
    | nil => rfl
    | cons i l ih =>
      have ⟨hi, hl⟩ := List.forall_mem_cons.mp h
      rw [List.foldl_cons, List.foldl_cons, hi, ih _ hl]
  have hstart : responses = marked responses ∅ := by
    funext i
    exact (if_neg (Finset.notMem_empty i)).symm
  rw [nonMaxSuppress, eliminate]
  nth_rewrite 1 [hstart]
  refine hfold ∅ fun i hi t => ?_
  have hi := List.mem_range.mp hi
  rw [againstAll]
  by_cases hout : i ∈ t
  · rw [if_pos ((marked_x hin hi).mpr hout), if_pos hout]
  · rw [if_neg (mt (marked_x hin hi).mp hout), if_neg hout]
    exact hfold t fun j hj u => suppressPair_marked hin hsize hi (List.mem_range.mp hj) u

/-- **What the suppression leaves** of the responses is what it is for. -/
theorem nonMaxSuppress_spec : Suppressed n responses (nonMaxSuppress responses n) := by
  have hout : nonMaxSuppress responses n = marked responses _ := nonMaxSuppress_marked hin hsize
  have hsymm : ∀ i j, clash responses i j → clash responses j i := fun i j h => by
    rw [clash, overlap_comm]
    exact h
  rw [hout]
  refine ⟨fun i => ?_, fun i hi j hj hne hx hx' => ?_, fun i hi hx => ?_, fun m _ hfirst hbest => ?_⟩
  · rw [marked]
    split
    · exact Or.inr rfl
    · exact Or.inl rfl
  · rw [Ne, marked_x hin hi] at hx
    rw [Ne, marked_x hin hj] at hx'
    exact not_le.mp (eliminate_settled i hi hx j hj hne.symm hx')
  · exact eliminate_beaten hsymm i ((marked_x hin hi).mp hx)
  · exact if_neg (eliminate_best hsymm hfirst hbest)

end

/-- A face found twice, and a weaker response elsewhere. -/
def twoFaces : Responses
  | 0 => ⟨10, 10, 121, 122, 40⟩
  | 1 => ⟨15, 10, 121, 122, 70⟩
  | _ => ⟨190, 100, 121, 122, 20⟩

theorem nonMaxSuppress_twoFaces : nonMaxSuppress twoFaces 3 1 = twoFaces 1 := by
  have hin : ∀ i < 3, (twoFaces i).InImage 324 244 := by
    intro i hi
    interval_cases i <;> constructor <;> decide
  exact (nonMaxSuppress_spec hin ⟨by decide, by decide, by decide⟩).best 1 (by decide) (by decide) (by decide)

end AiDeck.Faces
