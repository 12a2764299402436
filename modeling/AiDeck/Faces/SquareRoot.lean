import Mathlib
import AiDeck.Lib.Loop

/-! # The square root of the face detection

`SquareRootRounded` finds the root bit by bit in `unsigned int` arithmetic. With `j`
bits to go, `one` is a quarter of `4 ^ j`, `res` the root so far shifted by `j`, and
`op` what its square leaves of the argument. -/
namespace AiDeck.Faces

open AiDeck.Lib.Loop

/-- The local variables of `SquareRootRounded`. -/
structure RootState where
  op : UInt32
  res : UInt32
  one : UInt32
  deriving DecidableEq

/-- The body of the second loop. -/
def RootState.bit (s : RootState) : RootState :=
  let s := if s.op ≥ s.res + s.one then
      { s with op := s.op - (s.res + s.one), res := s.res + 2 * s.one }
    else s
  { s with res := s.res >>> 1, one := s.one >>> 2 }

/-- `SquareRootRounded`; the loops go through the powers of four up to `1 << 30`. -/
def squareRootRounded (a_nInput : UInt32) : Option UInt32 := do
  let s ← whileLoop (fun s => decide (s.one > s.op)) (fun s => { s with one := s.one >>> 2 }) 17
    (⟨a_nInput, 0, (1 : UInt32) <<< 30⟩ : RootState)
  let s ← whileLoop (fun s => decide (s.one ≠ 0)) RootState.bit 17 s
  return if s.op > s.res then s.res + 1 else s.res

example : squareRootRounded 30 = some 5 ∧ squareRootRounded 31 = some 6 := by decide

/-- The state with `j` bits to go; `P` is the root of `n` so far. -/
structure RootState.AtBit (n P j : Nat) (s : RootState) : Prop where
  one : s.one.toNat = 4 ^ j / 4
  res : s.res.toNat = P * 2 ^ j
  op : s.op.toNat + P ^ 2 = n
  below : n < (P + 2 ^ j) ^ 2
  bounded : P + 2 ^ j ≤ 2 ^ 16

theorem shiftRight_two_toNat (u : UInt32) : (u >>> 2).toNat = u.toNat / 4 := by
  rw [UInt32.toNat_shiftRight, Nat.shiftRight_eq_div_pow]
  rfl

theorem shiftRight_one_toNat (u : UInt32) : (u >>> 1).toNat = u.toNat / 2 := by
  rw [UInt32.toNat_shiftRight, Nat.shiftRight_eq_div_pow]
  rfl

/-- One bit of the root. -/
theorem RootState.AtBit.bit {n P j : Nat} {s : RootState} (h : s.AtBit n P (j + 1)) :
    ∃ P', s.bit.AtBit n P' j := by
  have hone : s.one.toNat = 4 ^ j := by
    rw [h.one, pow_succ, Nat.mul_div_cancel _ (by decide)]
  have hfour : (4 : Nat) ^ j = 2 ^ j * 2 ^ j := by
    rw [← Nat.mul_pow]
  have hres : s.res.toNat = 2 * (P * 2 ^ j) := by
    rw [h.res, pow_succ]
    ring
  have hop := h.op
  have hbelow := h.below
  have hbounded := h.bounded
  rw [pow_succ 2 j] at hbelow hbounded
  have hj : 2 * 2 ^ j ≤ 2 ^ 16 := by omega
  have hpos := Nat.two_pow_pos j
  -- neither sum wraps around
  have hsmall : 2 * (P * 2 ^ j) + 2 * 4 ^ j < 2 ^ 32 := by
    have : (2 * P + 2 * 2 ^ j) * 2 ^ j ≤ (2 * 2 ^ 16 - 2 * 2 ^ j) * 2 ^ j :=
      Nat.mul_le_mul_right _ (by omega)
    have : (2 * 2 ^ 16 - 2 * 2 ^ j) * 2 ^ j < 2 ^ 32 := by
      zify [show 2 * 2 ^ j ≤ 2 * 2 ^ 16 by omega]
      nlinarith [sq_nonneg ((2 : ℤ) ^ j - 2 ^ 15)]
    rw [hfour]
    nlinarith
  have hsum : (s.res + s.one).toNat = 2 * (P * 2 ^ j) + 4 ^ j := by
    rw [UInt32.toNat_add, hres, hone, Nat.mod_eq_of_lt (by omega)]
  have hsum' : (s.res + 2 * s.one).toNat = 2 * ((P + 2 ^ j) * 2 ^ j) := by
    have htwo : (2 * s.one).toNat = 2 * 4 ^ j := by
      rw [UInt32.toNat_mul, hone, show (2 : UInt32).toNat = 2 from rfl]
      exact Nat.mod_eq_of_lt (by omega)
    rw [UInt32.toNat_add, hres, htwo, Nat.mod_eq_of_lt hsmall, hfour]
    ring
  have hsquare : (P + 2 ^ j) ^ 2 = P ^ 2 + (2 * (P * 2 ^ j) + 4 ^ j) := by
    rw [hfour]
    ring
  have hnext : (s.one >>> 2).toNat = 4 ^ j / 4 := by
    rw [shiftRight_two_toNat, hone]
  by_cases hge : s.op ≥ s.res + s.one
  · have hge' := UInt32.le_iff_toNat_le.mp hge
    refine ⟨P + 2 ^ j, ?_⟩
    rw [RootState.bit, if_pos hge]
    constructor
    · exact hnext
    · change ((s.res + 2 * s.one) >>> 1).toNat = _
      rw [shiftRight_one_toNat, hsum', Nat.mul_div_cancel_left _ (by decide)]
    · change (s.op - (s.res + s.one)).toNat + _ = n
      rw [UInt32.toNat_sub_of_le _ _ hge, hsquare]
      omega
    · rwa [Nat.add_assoc, ← Nat.two_mul, Nat.mul_comm 2]
    · omega
  · have hlt := mt UInt32.le_iff_toNat_le.mpr hge
    refine ⟨P, ?_⟩
    rw [RootState.bit, if_neg hge]
    constructor
    · exact hnext
    · change (s.res >>> 1).toNat = _
      rw [shiftRight_one_toNat, hres, Nat.mul_div_cancel_left _ (by decide)]
    · exact hop
    · omega
    · omega

/-- `one` is zero once there are no bits to go. -/
theorem quarter_pos {j : Nat} : 0 < 4 ^ j / 4 ↔ 0 < j := by
  cases j with
  | zero => simp
  | succ j =>
    rw [pow_succ, Nat.mul_div_cancel _ (by decide)]
    simp

/-- The first loop: `one` becomes the highest power of four up to the argument. -/
theorem start_spec (n : UInt32) :
    ∃ s, whileLoop (fun s : RootState => decide (s.one > s.op))
      (fun s => { s with one := s.one >>> 2 }) 17 ⟨n, 0, (1 : UInt32) <<< 30⟩ = some s ∧
      ∃ j ≤ 16, s.AtBit n.toNat 0 j := by
  have hmax : n.toNat < 4 ^ 16 := by
    have hlt := n.toNat_lt
    omega
  have hone : ((1 : UInt32) <<< 30).toNat = 4 ^ 16 / 4 := by decide
  obtain ⟨s, hs, -, j, hj, hop, hres, hone, hlt⟩ := whileLoop_spec
    (fun s : RootState => decide (s.one > s.op)) (fun s => { s with one := s.one >>> 2 })
    (I := fun j s => s.op = n ∧ s.res = 0 ∧ s.one.toNat = 4 ^ j / 4 ∧ n.toNat < 4 ^ j)
    (by
      intro j s ⟨hop, hres, hone, _⟩ hcond
      have hgt := UInt32.lt_iff_toNat_lt.mp (of_decide_eq_true hcond)
      rw [hop, hone] at hgt
      have hpos : 0 < j := quarter_pos.mp (Nat.zero_lt_of_lt hgt)
      obtain ⟨j, rfl⟩ := Nat.exists_eq_succ_of_ne_zero hpos.ne'
      rw [pow_succ, Nat.mul_div_cancel _ (by decide)] at hone hgt
      refine ⟨j, by omega, hop, hres, ?_, hgt⟩
      change (s.one >>> 2).toNat = _
      rw [shiftRight_two_toNat, hone])
    (k := 16) (s := ⟨n, 0, (1 : UInt32) <<< 30⟩) ⟨rfl, rfl, hone, hmax⟩ (by decide : 16 < 17)
  refine ⟨s, hs, j, hj, ⟨hone, ?_, ?_, ?_, ?_⟩⟩
  · rw [hres, Nat.zero_mul]
    rfl
  · rw [hop]
    rfl
  · rwa [Nat.zero_add, ← Nat.pow_mul, Nat.mul_comm, Nat.pow_mul]
  · rw [Nat.zero_add]
    exact Nat.pow_le_pow_right (by decide) hj

/-- The second loop: the root, rounded down, and what is left of the argument. -/
theorem bits_spec {n j : Nat} {s : RootState} (h : s.AtBit n 0 j) (hj : j ≤ 16) :
    ∃ t, whileLoop (fun s : RootState => decide (s.one ≠ 0)) RootState.bit 17 s = some t ∧
      t.op.toNat + t.res.toNat ^ 2 = n ∧ n < (t.res.toNat + 1) ^ 2 := by
  obtain ⟨t, ht, hstop, i, -, P, hP⟩ := whileLoop_spec
    (fun s : RootState => decide (s.one ≠ 0)) RootState.bit
    (I := fun j s => ∃ P, s.AtBit n P j)
    (by
      intro j s ⟨P, hP⟩ hcond
      have hne : s.one.toNat ≠ 0 := fun he =>
        of_decide_eq_true hcond (UInt32.toNat_inj.mp he)
      rw [hP.one] at hne
      obtain ⟨j, rfl⟩ := Nat.exists_eq_succ_of_ne_zero
        (quarter_pos.mp (Nat.pos_of_ne_zero hne)).ne'
      exact ⟨j, by omega, hP.bit⟩)
    ⟨0, h⟩ (Nat.lt_succ_of_le hj)
  have hzero : t.one = 0 := not_not.mp (of_decide_eq_false hstop)
  have hi : i = 0 := by
    by_contra hne
    have hpos := quarter_pos.mpr (Nat.pos_of_ne_zero hne)
    rw [← hP.one, hzero] at hpos
    exact absurd hpos (Nat.lt_irrefl 0)
  subst hi
  have hres := hP.res
  rw [pow_zero, Nat.mul_one] at hres
  refine ⟨t, ht, ?_, ?_⟩
  · rw [hres]
    exact hP.op
  · rw [hres]
    exact hP.below

/-- Between the squares of two halves, the root is nearest to the integer in their middle. -/
theorem round_sqrt {n r : Nat} (hhigh : n ≤ r ^ 2 + r) (hlow : 0 < r → r ^ 2 < n + r) :
    round (√(n : ℝ)) = r := by
  have hhigh' : (n : ℝ) ≤ r ^ 2 + r := by exact_mod_cast hhigh
  rw [round_eq, Int.floor_eq_iff]
  push_cast
  constructor
  · have hsquare : (r - 1 / 2 : ℝ) ≤ √(n : ℝ) := by
      rcases Nat.eq_zero_or_pos r with rfl | hr
      · have := Real.sqrt_nonneg (n : ℝ)
        push_cast
        linarith
      · have hlow' : (r : ℝ) ^ 2 + 1 ≤ n + r := by exact_mod_cast hlow hr
        refine Real.le_sqrt_of_sq_le ?_
        nlinarith
    linarith
  · have hsquare : √(n : ℝ) < r + 1 / 2 := by
      refine (Real.sqrt_lt' (by positivity)).mpr ?_
      nlinarith
    linarith

/-- The root is within half a unit of the square root. -/
theorem squareRootRounded_near (a_nInput : UInt32) :
    ∃ r, squareRootRounded a_nInput = some r ∧ a_nInput.toNat ≤ r.toNat ^ 2 + r.toNat ∧
      (0 < r.toNat → r.toNat ^ 2 < a_nInput.toNat + r.toNat) := by
  obtain ⟨s, hs, j, hj, hbit⟩ := start_spec a_nInput
  obtain ⟨t, ht, hop, hlt⟩ := bits_spec hbit hj
  refine ⟨if t.op > t.res then t.res + 1 else t.res, ?_, ?_⟩
  · rw [squareRootRounded, hs, Option.bind_eq_bind, Option.bind_some, ht]
    rfl
  · have hsmall : t.res.toNat < 2 ^ 16 := by
      have hmax := a_nInput.toNat_lt
      by_contra hge
      have := Nat.pow_le_pow_left (Nat.le_of_not_lt hge) 2
      omega
    rw [add_sq] at hlt
    split
    next hgt =>
      have hgt' : t.res.toNat < t.op.toNat := UInt32.lt_iff_toNat_lt.mp hgt
      rw [UInt32.toNat_add, UInt32.toNat_one, Nat.mod_eq_of_lt (by omega), add_sq]
      constructor
      · omega
      · intro _
        omega
    next hle =>
      have hle' : t.op.toNat ≤ t.res.toNat := by
        rw [gt_iff_lt, UInt32.not_lt] at hle
        exact UInt32.le_iff_toNat_le.mp hle
      constructor
      · omega
      · intro _
        omega

/-- **`SquareRootRounded` is the square root rounded to the nearest integer**, for
every `unsigned int`. -/
theorem squareRootRounded_eq (a_nInput : UInt32) :
    ∃ r, squareRootRounded a_nInput = some r ∧ (r.toNat : ℤ) = round (√(a_nInput.toNat : ℝ)) := by
  obtain ⟨r, hr, hhigh, hlow⟩ := squareRootRounded_near a_nInput
  exact ⟨r, hr, (round_sqrt hhigh hlow).symm⟩

end AiDeck.Faces
