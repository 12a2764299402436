import Mathlib

/-! # Reflected cyclic redundancy checks

A register of `w` bits stands for a polynomial over the two-element field: the
highest bit of the word is the constant term. A shift to the right is then a
multiplication by `X`, and the `step` of a bit-serial checksum is that
multiplication modulo the generator. Nothing here depends on the width or on
the generator. -/
namespace AiDeck.Lib.Crc

open Polynomial

variable {w n : ℕ}

/-! ## Words as polynomials -/

/-- The polynomial of a word, the highest bit first. -/
noncomputable def reg (v : BitVec w) : (ZMod 2)[X] :=
  ∑ k ∈ Finset.range w, if v.getMsbD k then X ^ k else 0

/-- The word of a polynomial. -/
noncomputable def word (w : ℕ) (p : (ZMod 2)[X]) : BitVec w :=
  BitVec.ofFnBE fun k => decide (p.coeff k = 1)

theorem reg_coeff (v : BitVec w) (k : ℕ) : (reg v).coeff k = if v.getMsbD k then 1 else 0 := by
  have hterm : ∀ j, (if v.getMsbD j then (X : (ZMod 2)[X]) ^ j else 0).coeff k
      = if j = k then (if v.getMsbD k then 1 else 0) else 0 := by
    intro j
    by_cases hj : j = k
    · subst hj
      by_cases hv : v.getMsbD j <;> simp [hv]
    · by_cases hv : v.getMsbD j <;> simp [hv, hj, coeff_X_pow, Ne.symm hj]
  simp only [reg, finsetSum_coeff, hterm, Finset.sum_ite_eq', Finset.mem_range]
  by_cases hk : k < w
  · rw [if_pos hk]
  · rw [if_neg hk, BitVec.getMsbD_of_ge v k (by omega)]
    simp

theorem reg_degree_lt (v : BitVec w) : (reg v).degree < w := by
  rw [degree_lt_iff_coeff_zero]
  intro k hk
  simp [reg_coeff, BitVec.getMsbD_of_ge v k hk]

@[simp] theorem reg_zero : reg (0#w) = 0 := by
  ext k
  simp [reg_coeff]

/-- Exclusive or is the addition of the field. -/
@[simp] theorem reg_xor (a b : BitVec w) : reg (a ^^^ b) = reg a + reg b := by
  ext k
  rw [coeff_add, reg_coeff, reg_coeff, reg_coeff, BitVec.getMsbD_xor]
  cases a.getMsbD k <;> cases b.getMsbD k <;> decide

/-- A word is determined by its polynomial. -/
@[simp] theorem word_reg (v : BitVec w) : word w (reg v) = v := by
  apply BitVec.eq_of_getMsbD_eq
  intro k hk
  simp only [word, reg_coeff, BitVec.getMsbD_ofFnBE, hk, dif_pos]
  cases v.getMsbD k <;> simp

/-- A short word at the low end of a long one stands for the same polynomial, moved up. -/
theorem reg_setWidth (h : n ≤ w) (b : BitVec n) : reg (b.setWidth w) = X ^ (w - n) * reg b := by
  ext k
  rw [coeff_X_pow_mul', reg_coeff, BitVec.getMsbD_setWidth]
  by_cases hk : w - n ≤ k
  · rw [if_pos hk, reg_coeff, decide_eq_true hk, Bool.true_and,
      show k + n - w = k - (w - n) by omega]
  · rw [if_neg hk, decide_eq_false hk]
    simp

/-! ## The bit-serial step -/

/-- One bit of the checksum: the word is shifted out at its low end, and `poly`
is taken away when a one came out. -/
def step (poly v : BitVec w) : BitVec w :=
  if v.getLsbD 0 then (v >>> 1) ^^^ poly else v >>> 1

theorem step_eq (poly v : BitVec w) :
    step poly v = (v >>> 1) ^^^ (if v.getLsbD 0 then poly else 0) := by
  by_cases h : v.getLsbD 0 <;> simp [step, h]

/-- The step is linear. -/
theorem step_xor (poly a b : BitVec w) : step poly (a ^^^ b) = step poly a ^^^ step poly b := by
  have hpoly : (if (a.getLsbD 0 ^^ b.getLsbD 0) = true then poly else 0) =
      (if a.getLsbD 0 then poly else 0) ^^^ (if b.getLsbD 0 then poly else 0) := by
    cases a.getLsbD 0 <;> cases b.getLsbD 0 <;> simp
  rw [step_eq, step_eq, step_eq, BitVec.ushiftRight_xor_distrib, BitVec.getLsbD_xor, hpoly]
  ac_rfl

theorem iterate_step_xor (poly : BitVec w) (k : ℕ) (a b : BitVec w) :
    (step poly)^[k] (a ^^^ b) = (step poly)^[k] a ^^^ (step poly)^[k] b :=
  Function.Semiconj₂.iterate (step_xor poly) k a b

/-- As long as zeros come out the register is only shifted. -/
theorem iterate_step_of_low (poly : BitVec w) (k : ℕ) (v : BitVec w)
    (h : ∀ i < k, v.getLsbD i = false) : (step poly)^[k] v = v >>> k := by
  induction k generalizing v with
  | zero => simp
  | succ k ih =>
    have hlow : step poly v = v >>> 1 := by simp [step, h 0 (by omega)]
    have hrest : ∀ i < k, (v >>> 1).getLsbD i = false := by
      intro i hi
      rw [BitVec.getLsbD_ushiftRight]
      exact h (1 + i) (by omega)
    rw [Function.iterate_succ_apply, hlow, ih _ hrest, ← BitVec.shiftRight_add, Nat.add_comm]

/-- What the low `k` bits contribute to `k` steps does not depend on the rest of
the word, which is only shifted. This is what a table of the low bits rests on. -/
theorem iterate_step_split (poly v : BitVec w) (k : ℕ) :
    (step poly)^[k] v = (step poly)^[k] ((v.setWidth k).setWidth w) ^^^ (v >>> k) := by
  have hlow : ∀ i < k, (v ^^^ (v.setWidth k).setWidth w).getLsbD i = false := by
    intro i hi
    by_cases hw : i < w
    · simp [hi, hw]
    · simp [BitVec.getLsbD_of_ge v i (by omega), hw]
  have hhigh : (v ^^^ (v.setWidth k).setWidth w) >>> k = v >>> k := by
    apply BitVec.eq_of_getLsbD_eq
    intro i hi
    simp
  calc (step poly)^[k] v
      = (step poly)^[k] ((v.setWidth k).setWidth w ^^^ (v ^^^ (v.setWidth k).setWidth w)) := by
        rw [BitVec.xor_comm v, ← BitVec.xor_assoc, BitVec.xor_self, BitVec.zero_xor]
    _ = (step poly)^[k] ((v.setWidth k).setWidth w) ^^^ (v >>> k) := by
        rw [iterate_step_xor, iterate_step_of_low poly k _ hlow, hhigh]

/-! ## Steps as a multiplication modulo the generator -/

/-- The generator whose low coefficients are the bits of `poly`. -/
noncomputable def generator (poly : BitVec w) : (ZMod 2)[X] := X ^ w + reg poly

theorem generator_monic (poly : BitVec w) : (generator poly).Monic :=
  monic_X_pow_add (reg_degree_lt poly)

theorem generator_degree (poly : BitVec w) : (generator poly).degree = w := by
  have hlt : (reg poly).degree < (X ^ w : (ZMod 2)[X]).degree := by
    rw [degree_X_pow]
    exact reg_degree_lt poly
  rw [generator, degree_add_eq_left_of_degree_lt hlt, degree_X_pow]

theorem X_mul_reg (v : BitVec w) :
    X * reg v = reg (v >>> 1) + if v.getLsbD 0 then X ^ w else 0 := by
  have hlsb : v.getLsbD 0 = (decide (0 < w) && v.getMsbD (w - 1)) := by
    rw [BitVec.getLsbD_eq_getMsbD, Nat.sub_zero]
  ext k
  rw [coeff_add, reg_coeff, BitVec.getMsbD_ushiftRight, apply_ite (fun p => coeff p k), coeff_zero,
    coeff_X_pow, hlsb]
  cases k with
  | zero =>
    rw [coeff_X_mul_zero]
    by_cases hw : w = 0
    · simp [hw]
    · simp [Ne.symm hw]
  | succ k =>
    rw [coeff_X_mul, reg_coeff, Nat.add_sub_cancel]
    obtain hk | hk | hk := Nat.lt_trichotomy (k + 1) w
    · simp [hk, show k + 1 ≠ w by omega]
    · simp [← hk]
    · simp [show ¬ k + 1 < w by omega, show k + 1 ≠ w by omega,
        BitVec.getMsbD_of_ge v k (by omega)]

theorem X_mul_reg_step (poly v : BitVec w) :
    X * reg v = reg (step poly v) + if v.getLsbD 0 then generator poly else 0 := by
  rw [X_mul_reg, step_eq, reg_xor, generator]
  by_cases h : v.getLsbD 0
  · have hself : reg poly + reg poly = 0 := CharTwo.add_self_eq_zero _
    simp only [h, if_true]
    linear_combination - hself
  · simp [h]

/-- A step multiplies by `X`. -/
theorem mk_step (poly v : BitVec w) :
    AdjoinRoot.mk (generator poly) (reg (step poly v)) =
      AdjoinRoot.mk (generator poly) (X * reg v) := by
  rw [X_mul_reg_step poly v, map_add]
  by_cases h : v.getLsbD 0 <;> simp [h]

theorem mk_iterate_step (poly : BitVec w) (k : ℕ) (v : BitVec w) :
    AdjoinRoot.mk (generator poly) (reg ((step poly)^[k] v)) =
      AdjoinRoot.mk (generator poly) (X ^ k * reg v) := by
  induction k with
  | zero => simp
  | succ k ih =>
    rw [Function.iterate_succ_apply', mk_step, map_mul, ih, ← map_mul, ← mul_assoc, ← pow_succ']

/-! ## Messages -/

/-- One symbol of `n` bits is mixed into the low end and shifted through. -/
def absorb (poly v : BitVec w) (b : BitVec n) : BitVec w := (step poly)^[n] (v ^^^ b.setWidth w)

/-- The message as a polynomial, its first symbol the most significant. -/
noncomputable def message : List (BitVec n) → (ZMod 2)[X]
  | [] => 0
  | b :: m => reg b * X ^ (n * m.length) + message m

theorem mk_absorb (h : n ≤ w) (poly v : BitVec w) (b : BitVec n) :
    AdjoinRoot.mk (generator poly) (reg (absorb poly v b)) =
      AdjoinRoot.mk (generator poly) (X ^ n * reg v + X ^ w * reg b) := by
  have hw : n + (w - n) = w := by omega
  rw [absorb, mk_iterate_step, reg_xor, reg_setWidth h, mul_add, ← mul_assoc, ← pow_add, hw]

theorem mk_foldl_absorb (h : n ≤ w) (poly v : BitVec w) (m : List (BitVec n)) :
    AdjoinRoot.mk (generator poly) (reg (m.foldl (absorb poly) v)) =
      AdjoinRoot.mk (generator poly) (X ^ (n * m.length) * reg v + X ^ w * message m) := by
  induction m generalizing v with
  | nil => simp [message]
  | cons b m ih =>
    have hsplit : X ^ (n * (b :: m).length) * reg v + X ^ w * message (b :: m) =
        X ^ (n * m.length) * (X ^ n * reg v + X ^ w * reg b) + X ^ w * message m := by
      rw [message, List.length_cons]
      ring
    rw [List.foldl_cons, ih, hsplit, map_add, map_mul, mk_absorb h, ← map_mul, ← map_add]

/-- **The register after a message is a remainder**: the initial value, moved up
past the message, and the message, moved up past the register, are divided by
the generator. -/
theorem reg_foldl_absorb (h : n ≤ w) (poly v : BitVec w) (m : List (BitVec n)) :
    reg (m.foldl (absorb poly) v) =
      (X ^ (n * m.length) * reg v + X ^ w * message m) %ₘ generator poly := by
  have hdiv := AdjoinRoot.mk_eq_mk.mp (mk_foldl_absorb h poly v m)
  rw [← modByMonic_eq_of_dvd_sub (generator_monic poly) hdiv, eq_comm,
    modByMonic_eq_self_iff (generator_monic poly), generator_degree]
  exact reg_degree_lt _

end AiDeck.Lib.Crc
