import Mathlib

/-! # Dot products of bytes

Sums of products of an unsigned with a signed byte in a register of 32 bits, four at a time
and then the rest. Below 2^16 products the register holds the exact sum. -/
namespace AiDeck.Lib.Dot

/-- The product of an unsigned with a signed byte. -/
def product (b a : UInt8) : ℤ := b.toNat * a.toInt8.toInt

def mac (b a : UInt8) (sum : Int32) : Int32 := sum + Int32.ofInt (product b a)

/-- The sum with four more products. -/
def mac4 (b a : ℕ → UInt8) (j : ℕ) (sum : Int32) : Int32 :=
  mac (b (4 * j + 3)) (a (4 * j + 3)) (mac (b (4 * j + 2)) (a (4 * j + 2))
    (mac (b (4 * j + 1)) (a (4 * j + 1)) (mac (b (4 * j)) (a (4 * j)) sum)))

/-- A loop over four at a time and one over what is left. -/
def dot (b a : ℕ → UInt8) (n : ℕ) (sum : Int32) : Int32 :=
  (List.range (n % 4)).foldl (fun s i => mac (b (4 * (n / 4) + i)) (a (4 * (n / 4) + i)) s)
    ((List.range (n / 4)).foldl (fun s j => mac4 b a j s) sum)

/-- The sum itself. -/
def total (b a : ℕ → UInt8) (n : ℕ) : ℤ := ∑ i ∈ Finset.range n, product (b i) (a i)

variable {b a b' a' : ℕ → UInt8} {n : ℕ}

theorem total_congr (hb : ∀ i < n, b i = b' i) (ha : ∀ i < n, a i = a' i) :
    total b a n = total b' a' n := by
  refine Finset.sum_congr rfl fun i hi => ?_
  have hlt := Finset.mem_range.mp hi
  rw [hb i hlt, ha i hlt]

theorem total_succ (b a : ℕ → UInt8) (n : ℕ) :
    total b a (n + 1) = total b a n + product (b n) (a n) := Finset.sum_range_succ _ n

/-- A loop of single products. -/
theorem foldl_mac (b a : ℕ → UInt8) (n : ℕ) (sum : Int32) :
    (List.range n).foldl (fun s i => mac (b i) (a i) s) sum = sum + Int32.ofInt (total b a n) := by
  induction n with
  | zero => simp [total]
  | succ n ih =>
    rw [List.range_succ, List.foldl_append, ih, total_succ, Int32.ofInt_add, ← Int32.add_assoc]
    rfl

theorem foldl_mac4 (b a : ℕ → UInt8) (q : ℕ) (sum : Int32) :
    (List.range q).foldl (fun s j => mac4 b a j s) sum =
      (List.range (4 * q)).foldl (fun s i => mac (b i) (a i) s) sum := by
  induction q with
  | zero => rfl
  | succ q ih =>
    rw [List.range_succ, List.foldl_append, ih, show 4 * (q + 1) = 4 * q + 1 + 1 + 1 + 1 by ring]
    simp only [List.range_succ, List.foldl_append, List.foldl_cons, List.foldl_nil]
    rfl

/-- **The two loops add up all the products**, as far as the register goes. -/
theorem dot_eq (b a : ℕ → UInt8) (n : ℕ) (sum : Int32) :
    dot b a n sum = sum + Int32.ofInt (total b a n) := by
  have hsplit : total b a n = total b a (4 * (n / 4)) +
      total (fun i => b (4 * (n / 4) + i)) (fun i => a (4 * (n / 4) + i)) (n % 4) := by
    unfold total
    rw [← Finset.sum_range_add (fun i => product (b i) (a i)), Nat.div_add_mod]
  rw [dot, foldl_mac4, foldl_mac b a, foldl_mac (fun i => b (4 * (n / 4) + i))
    (fun i => a (4 * (n / 4) + i)), hsplit, Int32.ofInt_add, Int32.add_assoc]

theorem dot_congr (hb : ∀ i < n, b i = b' i) (ha : ∀ i < n, a i = a' i) (sum : Int32) :
    dot b a n sum = dot b' a' n sum := by
  rw [dot_eq, dot_eq, total_congr hb ha]

/-! ## Without overflow -/

theorem product_bounds (b a : UInt8) : -32640 ≤ product b a ∧ product b a ≤ 32640 := by
  have hb : (b.toNat : ℤ) ≤ 255 := by
    have := b.toNat_lt
    omega
  have hb' : (0 : ℤ) ≤ b.toNat := Int.natCast_nonneg _
  have hlow := a.toInt8.le_toInt
  have hhigh := a.toInt8.toInt_lt
  unfold product
  constructor <;> nlinarith

theorem total_bounds (b a : ℕ → UInt8) (n : ℕ) :
    -32640 * n ≤ total b a n ∧ total b a n ≤ 32640 * n := by
  induction n with
  | zero => simp [total]
  | succ n ih =>
    have hnext := product_bounds (b n) (a n)
    rw [total_succ, Nat.cast_succ]
    omega

/-- **Fewer than 2^16 products do not overflow.** -/
theorem toInt_ofInt_total (h : n < 2 ^ 16) : (Int32.ofInt (total b a n)).toInt = total b a n := by
  have hbounds := total_bounds b a n
  exact Int32.toInt_ofInt_of_le (by omega) (by omega)

end AiDeck.Lib.Dot
