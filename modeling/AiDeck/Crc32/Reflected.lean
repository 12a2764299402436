import Mathlib
import AiDeck.Crc32
import AiDeck.Lib.Crc

/-! # The checksum of crc32.c is the host's

The table holds eight steps of the bit-serial register for every low byte. As
the step is linear, one access replaces eight rounds of `crcByBit`; and what
`crcByBit` leaves in the register is the remainder that `binascii.crc32`
computes. -/
namespace AiDeck.Crc32

open AiDeck.Lib.Crc Polynomial

/-- The static variables after `n` calls of `crc32ContextInit`, the only function
that writes them. -/
def statics : Nat → Static
  | 0 => Static.zero
  | n + 1 => (crc32ContextInit (statics n)).1

/-- `binascii.crc32` of Python, which streamer.py calls on a received buffer: the
reflected CRC-32 as a remainder of polynomials. -/
noncomputable def binasciiCrc32 (data : List UInt8) : UInt32 :=
  ⟨word 32 ((X ^ (8 * data.length) * reg 0xFFFFFFFF#32 +
    X ^ 32 * message (data.map UInt8.toBitVec)) %ₘ generator 0xEDB88320#32)⟩ ^^^ 0xFFFFFFFF

/-- The generator written out. -/
theorem generator_polynomial :
    generator 0xEDB88320#32 =
      X ^ 32 + X ^ 26 + X ^ 23 + X ^ 22 + X ^ 16 + X ^ 12 + X ^ 11 + X ^ 10 + X ^ 8 + X ^ 7 +
        X ^ 5 + X ^ 4 + X ^ 2 + X + 1 := by
  have hreg : reg 0xEDB88320#32 =
      X ^ 26 + X ^ 23 + X ^ 22 + X ^ 16 + X ^ 12 + X ^ 11 + X ^ 10 + X ^ 8 + X ^ 7 +
        X ^ 5 + X ^ 4 + X ^ 2 + X + 1 := by
    simp [reg, Finset.sum_range_succ, BitVec.getMsbD_eq_getLsbD]
    ring
  rw [generator, hreg]
  ring

/-! ## The bit-wise calculation -/

theorem crcBit_toBitVec (remainder : UInt32) :
    (crcBit remainder).toBitVec = step polynomial.toBitVec remainder.toBitVec := by
  have hbit : remainder &&& 1 ≠ 0 ↔ remainder.toBitVec.getLsbD 0 = true := by
    rw [Ne, ← UInt32.toNat_inj, UInt32.toNat_and, BitVec.getLsbD, Nat.testBit_zero,
      decide_eq_true_eq]
    simp [Nat.and_one_is_mod]
  by_cases h : remainder &&& 1 ≠ 0
  · rw [crcBit, if_pos h, step, if_pos (hbit.mp h)]
    rfl
  · rw [crcBit, if_neg h, step, if_neg (fun hb => h (hbit.mpr hb))]
    rfl

theorem repeat_crcBit_toBitVec (k : Nat) (remainder : UInt32) :
    (Nat.repeat crcBit k remainder).toBitVec =
      (step polynomial.toBitVec)^[k] remainder.toBitVec := by
  induction k with
  | zero => rfl
  | succ k ih => rw [Nat.repeat, crcBit_toBitVec, ih, Function.iterate_succ_apply']

theorem crcByBit_toBitVec (message : List UInt8) (remainder : UInt32) :
    (crcByBit message remainder).toBitVec =
      (message.map UInt8.toBitVec).foldl (absorb polynomial.toBitVec) remainder.toBitVec := by
  induction message generalizing remainder with
  | nil => rfl
  | cons byte message ih =>
    have hstep : (Nat.repeat crcBit 8 (remainder ^^^ byte.toUInt32)).toBitVec =
        absorb polynomial.toBitVec remainder.toBitVec byte.toBitVec := by
      rw [repeat_crcBit_toBitVec, absorb]
      rfl
    rw [crcByBit, List.foldl_cons, ← crcByBit, ih, hstep]
    rfl

/-- Initial value and final exclusive or around the bit-wise calculation. -/
theorem binasciiCrc32_eq (data : List UInt8) :
    binasciiCrc32 data = crcByBit data initialRemainder ^^^ finalXorValue := by
  have hrun := reg_foldl_absorb (by omega) polynomial.toBitVec initialRemainder.toBitVec
    (data.map UInt8.toBitVec)
  rw [← crcByBit_toBitVec, List.length_map] at hrun
  have hword := word_reg (crcByBit data initialRemainder).toBitVec
  rw [hrun] at hword
  exact congrArg (fun v => UInt32.ofBitVec v ^^^ finalXorValue) hword

/-! ## The table -/

theorem crcByBit_append (a b : List UInt8) (remainder : UInt32) :
    crcByBit (a ++ b) remainder = crcByBit b (crcByBit a remainder) :=
  List.foldl_append

theorem crcByByte_append (a b : List UInt8) (remainder : UInt32) (crcTable : UInt8 → UInt32) :
    crcByByte (a ++ b) remainder crcTable =
      crcByByte b (crcByByte a remainder crcTable) crcTable :=
  List.foldl_append

/-- One access to the table does the eight rounds of a byte. -/
theorem crcByteStep_eq {crcTable : UInt8 → UInt32} (h : ∀ d, crcTable d = crcByBit [d] 0)
    (remainder : UInt32) (byte : UInt8) :
    crcByteStep crcTable remainder byte = crcByBit [byte] remainder := by
  apply UInt32.toBitVec_inj.mp
  have hhigh : (byte.toUInt32.toBitVec ^^^ remainder.toBitVec) >>> 8 = remainder.toBitVec >>> 8 := by
    apply BitVec.eq_of_getLsbD_eq
    intro i hi
    simp
  have hsplit := iterate_step_split polynomial.toBitVec
    (byte.toUInt32.toBitVec ^^^ remainder.toBitVec) 8
  rw [hhigh] at hsplit
  calc (crcByteStep crcTable remainder byte).toBitVec
      = (crcByBit [(byte.toUInt32 ^^^ remainder).toUInt8] 0).toBitVec ^^^
          remainder.toBitVec >>> 8 := by
        rw [crcByteStep, h]
        rfl
    _ = (step polynomial.toBitVec)^[8] (byte.toUInt32.toBitVec ^^^ remainder.toBitVec) := by
        rw [hsplit, crcByBit_toBitVec]
        simp [absorb]
    _ = (crcByBit [byte] remainder).toBitVec := by
        rw [crcByBit_toBitVec, BitVec.xor_comm]
        rfl

theorem crcByByte_eq {crcTable : UInt8 → UInt32} (h : ∀ d, crcTable d = crcByBit [d] 0)
    (message : List UInt8) (remainder : UInt32) :
    crcByByte message remainder crcTable = crcByBit message remainder := by
  induction message generalizing remainder with
  | nil => rfl
  | cons byte message ih =>
    rw [crcByByte, List.foldl_cons, ← crcByByte, ih, crcByteStep_eq h, ← crcByBit_append]
    rfl

/-! ## The checksum -/

theorem statics_valid (n : Nat) : (statics n).Valid := by
  induction n with
  | zero => exact Static.zero_valid
  | succ n ih => exact (crc32ContextInit_spec ih).1

theorem statics_crcTable (n : Nat) : ∀ d, (statics (n + 1)).crcTable d = crcByBit [d] 0 :=
  congrFun (crc32ContextInit_spec (statics_valid n)).2

/-- What the parser and the streamer compare is what the host computes. -/
theorem crc32_eq_binascii (buffer : List UInt8) : crc32 buffer = binasciiCrc32 buffer := by
  rw [crc32_eq, binasciiCrc32_eq, crcByByte_eq fun _ => rfl]

/-- **The table-driven checksum is the reflected CRC-32.** After one or more
initialised contexts the table gives the remainder of the bit-wise calculation,
a message may be passed in pieces, and whatever ran before, the checksum of a
buffer is the one the host computes. -/
theorem crc32_reflected (n : Nat) :
    (∀ message remainder, crcByByte message remainder (statics (n + 1)).crcTable =
      crcByBit message remainder) ∧
    (∀ context a b,
      crc32Update (statics (n + 1)) (crc32Update (statics (n + 1)) context a) b =
        crc32Update (statics (n + 1)) context (a ++ b)) ∧
    ∀ buffer, (crc32CalculateBuffer (statics n) buffer).2 = binasciiCrc32 buffer := by
  refine ⟨crcByByte_eq (statics_crcTable n), fun context a b => ?_, fun buffer => ?_⟩
  · simp only [crc32Update, crcByByte_append]
  · rw [(crc32CalculateBuffer_static (statics_valid n) buffer).2, crc32_eq_binascii]

end AiDeck.Crc32
