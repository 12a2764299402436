import Mathlib

/-! # CRC-32 of nanocockpit/lib/crc32.c

Table driven, with the table built lazily by the first context that is
initialised. The static variables of the file are a state that every call
threads through; `crc32CalculateBuffer_static` says that no caller can tell
whether the table was already there. -/
namespace AiDeck.Crc32

def polynomial : UInt32 := 0xEDB88320
def initialRemainder : UInt32 := 0xFFFFFFFF
def finalXorValue : UInt32 := 0xFFFFFFFF

/-- One round of the inner loop of `crcByBit`. -/
def crcBit (remainder : UInt32) : UInt32 :=
  if remainder &&& 1 ≠ 0 then (remainder >>> 1) ^^^ polynomial else remainder >>> 1

/-- Bit-wise calculation, least significant bit first. -/
def crcByBit (message : List UInt8) (remainder : UInt32) : UInt32 :=
  message.foldl (fun remainder byte => Nat.repeat crcBit 8 (remainder ^^^ byte.toUInt32)) remainder

/-- One iteration of `crcByByte`: `data` is the low byte of the mixed word. -/
def crcByteStep (crcTable : UInt8 → UInt32) (remainder : UInt32) (byte : UInt8) : UInt32 :=
  let data := (byte.toUInt32 ^^^ remainder).toUInt8
  crcTable data ^^^ (remainder >>> 8)

def crcByByte (message : List UInt8) (remainder : UInt32) (crcTable : UInt8 → UInt32) : UInt32 :=
  message.foldl (crcByteStep crcTable) remainder

/-- The loop of `crcTableInit` from a dividend down to 0. -/
def crcTableLoop : Nat → (UInt8 → UInt32) → UInt8 → UInt32
  | 0, crcTable => Function.update crcTable 0 (crcByBit [0] 0)
  | dividend + 1, crcTable =>
    let d := UInt8.ofNat (dividend + 1)
    crcTableLoop dividend (Function.update crcTable d (crcByBit [d] 0))

/-- `dividend` starts at `~0` and the entry for 0 is written before the test
that ends the loop. -/
def crcTableInit (crcTable : UInt8 → UInt32) : UInt8 → UInt32 := crcTableLoop 255 crcTable

/-- The static variables of crc32.c. -/
structure Static where
  crcTable : UInt8 → UInt32
  crcTableInitialized : Bool

/-- Zero-initialised static storage. -/
def Static.zero : Static := ⟨fun _ => 0, false⟩

structure Context where
  remainder : UInt32
  deriving DecidableEq

def crc32ContextInit (st : Static) : Static × Context :=
  let st := if st.crcTableInitialized = false then ⟨crcTableInit st.crcTable, true⟩ else st
  (st, ⟨initialRemainder⟩)

def crc32Update (st : Static) (context : Context) (data : List UInt8) : Context :=
  ⟨crcByByte data context.remainder st.crcTable⟩

def crc32Out (context : Context) : UInt32 := context.remainder ^^^ finalXorValue

def crc32CalculateBuffer (st : Static) (buffer : List UInt8) : Static × UInt32 :=
  let (st, ctx) := crc32ContextInit st
  (st, crc32Out (crc32Update st ctx buffer))

/-! ## The lazily built table -/

theorem crcTableLoop_spec (n : Nat) (hn : n < 256) (crcTable : UInt8 → UInt32) (d : UInt8) :
    crcTableLoop n crcTable d = if d.toNat ≤ n then crcByBit [d] 0 else crcTable d := by
  induction n generalizing crcTable with
  | zero =>
    simp only [crcTableLoop, Function.update_apply, Nat.le_zero]
    by_cases h : d = 0
    · simp [h]
    · have hne : d.toNat ≠ 0 := fun he => h (UInt8.toNat_inj.mp (by simpa using he))
      simp [h, hne]
  | succ n ih =>
    have hd : (UInt8.ofNat (n + 1)).toNat = n + 1 := by
      rw [UInt8.toNat_ofNat', Nat.mod_eq_of_lt (by omega)]
    simp only [crcTableLoop]
    rw [ih (by omega)]
    by_cases hle : d.toNat ≤ n
    · rw [if_pos hle, if_pos (by omega)]
    · rw [if_neg hle]
      by_cases h : d = UInt8.ofNat (n + 1)
      · rw [← h] at hd ⊢
        rw [Function.update_self, if_pos (by omega)]
      · have hne : d.toNat ≠ n + 1 := fun he => h (UInt8.toNat_inj.mp (he.trans hd.symm))
        rw [Function.update_of_ne h, if_neg (by omega)]

/-- All 256 entries are filled, although the counter is an 8-bit one. -/
theorem crcTableInit_spec (crcTable : UInt8 → UInt32) (d : UInt8) :
    crcTableInit crcTable d = crcByBit [d] 0 := by
  have hd := d.toNat_lt
  rw [crcTableInit, crcTableLoop_spec 255 (by omega), if_pos (by omega)]

/-- A flag that is set means a table that is filled. -/
def Static.Valid (st : Static) : Prop :=
  st.crcTableInitialized = true → ∀ d, st.crcTable d = crcByBit [d] 0

theorem Static.zero_valid : Static.zero.Valid := by
  intro h; cases h

theorem crc32ContextInit_spec {st : Static} (h : st.Valid) :
    (crc32ContextInit st).1.Valid ∧ (crc32ContextInit st).1.crcTable = fun d => crcByBit [d] 0 := by
  cases hi : st.crcTableInitialized with
  | false =>
    simp only [crc32ContextInit, hi, if_true, Static.Valid]
    exact ⟨fun _ d => crcTableInit_spec _ d, funext fun d => crcTableInit_spec _ d⟩
  | true =>
    simp only [crc32ContextInit, hi, Bool.true_eq_false, if_false]
    exact ⟨h, funext (h hi)⟩

/-- What `crc32CalculateBuffer` returns to its callers. -/
def crc32 (buffer : List UInt8) : UInt32 := (crc32CalculateBuffer Static.zero buffer).2

/-- The checksum does not depend on what was computed before. -/
theorem crc32CalculateBuffer_static {st : Static} (h : st.Valid) (buffer : List UInt8) :
    (crc32CalculateBuffer st buffer).1.Valid ∧ (crc32CalculateBuffer st buffer).2 = crc32 buffer := by
  obtain ⟨hv, ht⟩ := crc32ContextInit_spec h
  have hz := (crc32ContextInit_spec Static.zero_valid).2
  refine ⟨hv, ?_⟩
  simp only [crc32, crc32CalculateBuffer, crc32Update, ht, hz]
  rfl

theorem crc32_eq (buffer : List UInt8) :
    crc32 buffer =
      crcByByte buffer initialRemainder (fun d => crcByBit [d] 0) ^^^ finalXorValue := by
  simp only [crc32, crc32CalculateBuffer, crc32Update, crc32Out,
    (crc32ContextInit_spec Static.zero_valid).2]
  rfl

/-- `CHECK_VALUE` of crc32.c: the checksum of "123456789". -/
example : crc32 [49, 50, 51, 52, 53, 54, 55, 56, 57] = 0xCBF43926 := by
  rw [crc32_eq]; decide +kernel

end AiDeck.Crc32
