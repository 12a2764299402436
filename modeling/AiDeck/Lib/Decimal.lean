import Mathlib

/-! # Decimal numbers in text

The decimal digits of a number as bytes, and reading them back digit by digit, in the
arithmetic of 32-bit words. -/
namespace AiDeck.Lib.Decimal

def isDigit (c : UInt8) : Bool := 0x30 ≤ c && c ≤ 0x39

/-- The digits, the highest first; zero has none. -/
def decimal (n : ℕ) : List UInt8 := (Nat.digits 10 n).reverse.map fun d => 0x30 + .ofNat d

/-- What digits add to a value that was read so far. -/
def readDigit (val : UInt32) (c : UInt8) : UInt32 := val * 10 + (c.toUInt32 - 0x30)

theorem digit_toNat {d : ℕ} (hd : d < 10) : (0x30 + UInt8.ofNat d).toNat = 0x30 + d := by
  rw [UInt8.toNat_add, UInt8.toNat_ofNat', Nat.mod_eq_of_lt (by omega : d < 2 ^ 8)]
  exact Nat.mod_eq_of_lt (by change 48 + d < 2 ^ 8; omega)

theorem isDigit_of_mem {n : ℕ} {c : UInt8} (hc : c ∈ decimal n) : isDigit c = true := by
  obtain ⟨d, hd, rfl⟩ := List.mem_map.mp hc
  have hlt := Nat.digits_lt_base (by decide) (List.mem_reverse.mp hd)
  have htoNat := digit_toNat hlt
  simp only [isDigit, Bool.and_eq_true, decide_eq_true_eq, UInt8.le_iff_toNat_le, htoNat]
  change 48 ≤ 48 + d ∧ 48 + d ≤ 57
  omega

theorem decimal_ne_nil {n : ℕ} (hn : 0 < n) : decimal n ≠ [] := by
  rw [decimal, Ne, List.map_eq_nil_iff, List.reverse_eq_nil_iff]
  exact Nat.digits_ne_nil_iff_ne_zero.mpr hn.ne'

theorem readDigit_digit (v : ℕ) {d : ℕ} (hd : d < 10) :
    readDigit (.ofNat v) (0x30 + .ofNat d) = .ofNat (d + 10 * v) := by
  have hdigit : (0x30 + UInt8.ofNat d).toUInt32 - 0x30 = .ofNat d := by
    apply UInt32.toNat_inj.mp
    have hle : (0x30 : UInt32) ≤ (0x30 + UInt8.ofNat d).toUInt32 := by
      rw [UInt32.le_iff_toNat_le, UInt8.toNat_toUInt32, digit_toNat hd]
      exact Nat.le_add_right 48 d
    rw [UInt32.toNat_sub_of_le _ _ hle, UInt8.toNat_toUInt32, digit_toNat hd, UInt32.toNat_ofNat',
      Nat.mod_eq_of_lt (by omega)]
    exact Nat.add_sub_cancel_left 48 d
  rw [readDigit, hdigit, Nat.add_comm, Nat.mul_comm, UInt32.ofNat_add, UInt32.ofNat_mul]
  rfl

/-- **The digits of a number are read as the number.** -/
theorem foldl_decimal (n : ℕ) : (decimal n).foldl readDigit 0 = .ofNat n := by
  have hdigits : ∀ l : List ℕ, (∀ d ∈ l, d < 10) →
      ((l.reverse.map fun d => 0x30 + UInt8.ofNat d).foldl readDigit 0) =
        .ofNat (Nat.ofDigits 10 l) := by
    intro l
    induction l with
    | nil => exact fun _ => rfl
    | cons d l ih =>
      intro h
      have ⟨hd, hl⟩ := List.forall_mem_cons.mp h
      rw [List.reverse_cons, List.map_append, List.foldl_append, ih hl, Nat.ofDigits_cons]
      exact readDigit_digit _ hd
  rw [decimal, hdigits _ fun d hd => Nat.digits_lt_base (by decide) hd, Nat.ofDigits_digits]

/-! ## Reading -/

/-- The digits in front are read, as far as they go; there has to be something behind them. -/
def readDigits : UInt32 → List UInt8 → Option (UInt32 × List UInt8)
  | _, [] => none
  | val, c :: l => if isDigit c then readDigits (readDigit val c) l else some (val, c :: l)

/-- What comes before the first byte that is as asked for is left out. -/
def skipUntil (p : UInt8 → Bool) : List UInt8 → Option (List UInt8)
  | [] => none
  | c :: l => if p c then some (c :: l) else skipUntil p l

theorem readDigits_append {ds : List UInt8} (hds : ∀ d ∈ ds, isDigit d = true) (val : UInt32)
    {c : UInt8} (hc : isDigit c = false) (l : List UInt8) :
    readDigits val (ds ++ c :: l) = some (ds.foldl readDigit val, c :: l) := by
  induction ds generalizing val with
  | nil => rw [List.nil_append, readDigits, hc]; rfl
  | cons d ds ih =>
    have ⟨hd, hds⟩ := List.forall_mem_cons.mp hds
    rw [List.cons_append, readDigits, if_pos hd, ih hds, List.foldl_cons]

theorem skipUntil_of_head {p : UInt8 → Bool} {c : UInt8} (hc : p c = true) (l : List UInt8) :
    skipUntil p (c :: l) = some (c :: l) := if_pos hc

theorem skipUntil_decimal {n : ℕ} (hn : 0 < n) (l : List UInt8) :
    skipUntil isDigit (decimal n ++ l) = some (decimal n ++ l) := by
  obtain ⟨d, ds, hds⟩ := List.exists_cons_of_ne_nil (decimal_ne_nil hn)
  rw [hds]
  exact skipUntil_of_head (isDigit_of_mem (hds ▸ List.mem_cons_self)) _

theorem readDigits_decimal (n : ℕ) {c : UInt8} (hc : isDigit c = false) (l : List UInt8) :
    readDigits 0 (decimal n ++ c :: l) = some (.ofNat n, c :: l) := by
  rw [readDigits_append (fun d hd => isDigit_of_mem hd) 0 hc, foldl_decimal]

end AiDeck.Lib.Decimal
