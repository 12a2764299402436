import AiDeck.Coroutine.List
import AiDeck.Lib.Transition

/-! # Random bits from the entropy of the UART

`rng.c` of NanoCockpit hands out the bits of the last word of entropy, the least
significant ones first. Shifts are those of the GAP8 core: by a count modulo 32. -/
namespace AiDeck.Rng
open AiDeck.Lib AiDeck.Coroutine

/-- The variables of `rng.c`. -/
structure Entropy where
  entropy : UInt32
  entropyMask : UInt32
  deriving DecidableEq, Repr

def rngInit : Entropy := ⟨0x00000000, 0x00000000⟩

def rngPushEntropy (newEntropy : UInt32) : Entropy := ⟨newEntropy, 0xFFFFFFFF⟩

def rngRandomBits (nBits : UInt8) (s : Entropy) : Except Stop (UInt32 × Entropy) :=
  let mask : UInt32 := (1 <<< nBits.toUInt32) - 1
  let output := s.entropy &&& mask
  let valid := s.entropyMask &&& mask
  if valid ≠ mask then .error (.assertion "Insufficient entropy\n")
  else .ok (output, ⟨s.entropy >>> nBits.toUInt32, s.entropyMask >>> nBits.toUInt32⟩)

/-! ## Bits -/

/-- The `n` low bits of `x`, the least significant one first. -/
def bits (n x : Nat) : List Bool := (List.range n).map x.testBit

@[simp] theorem bits_length (n x : Nat) : (bits n x).length = n := by simp [bits]

theorem bits_take {m n : Nat} (h : m ≤ n) (x : Nat) : (bits n x).take m = bits m x := by
  rw [bits, ← List.map_take, List.take_range, Nat.min_eq_left h, bits]

theorem bits_drop (m n x : Nat) : (bits n x).drop m = bits (n - m) (x / 2 ^ m) := by
  refine List.ext_getElem (by simp) fun i _ _ => ?_
  simp [bits, Nat.testBit_div_two_pow, Nat.add_comm]

theorem bits_mod (n x : Nat) : bits n (x % 2 ^ n) = bits n x := by
  refine List.map_congr_left fun i hi => ?_
  rw [Nat.testBit_mod_two_pow, decide_eq_true (List.mem_range.mp hi), Bool.true_and]

/-! ## The bits that are left -/

/-- `l` are the bits that have not been handed out. -/
structure Entropy.Holds (s : Entropy) (l : List Bool) : Prop where
  bits : bits l.length s.entropy.toNat = l
  entropy : s.entropy.toNat < 2 ^ l.length
  entropyMask : s.entropyMask.toNat = 2 ^ l.length - 1

theorem rngInit_holds : rngInit.Holds [] := ⟨rfl, Nat.one_pos, rfl⟩

theorem rngPushEntropy_holds (e : UInt32) : (rngPushEntropy e).Holds (bits 32 e.toNat) := by
  constructor
  · rw [bits_length]
    rfl
  · rw [bits_length]
    exact e.toNat_lt
  · rw [bits_length]
    rfl

section
variable {nBits : UInt8}

theorem shift_toNat (h : nBits < 32) : nBits.toUInt32.toNat % 32 = nBits.toNat :=
  Nat.mod_eq_of_lt (UInt8.lt_iff_toNat_lt.mp h)

theorem mask_toNat (h : nBits < 32) :
    ((1 <<< nBits.toUInt32) - 1 : UInt32).toNat = 2 ^ nBits.toNat - 1 := by
  have hlt : nBits.toNat < 32 := UInt8.lt_iff_toNat_lt.mp h
  have hpow : 2 ^ nBits.toNat < 2 ^ 32 := Nat.pow_lt_pow_right (by decide) hlt
  have hshift : ((1 : UInt32) <<< nBits.toUInt32).toNat = 2 ^ nBits.toNat := by
    rw [UInt32.toNat_shiftLeft, shift_toNat h, Nat.shiftLeft_eq]
    change 1 * 2 ^ nBits.toNat % 2 ^ 32 = _
    rw [Nat.one_mul, Nat.mod_eq_of_lt hpow]
  have hone : (1 : UInt32) ≤ 1 <<< nBits.toUInt32 := by
    rw [UInt32.le_iff_toNat_le, hshift]
    exact Nat.one_le_two_pow
  rw [UInt32.toNat_sub_of_le _ _ hone, hshift]
  rfl

theorem mul_pred_div {a b : Nat} (ha : 0 < a) (hb : 0 < b) : (a * b - 1) / a = b - 1 := by
  obtain ⟨c, rfl⟩ := Nat.exists_eq_succ_of_ne_zero hb.ne'
  have hsum : a * c.succ - 1 = (a - 1) + a * c := by
    rw [Nat.mul_succ]
    omega
  rw [hsum, Nat.add_mul_div_left _ _ ha, Nat.div_eq_of_lt (Nat.sub_lt ha Nat.one_pos)]
  exact Nat.zero_add c

theorem shiftRight_toNat (h : nBits < 32) (x : UInt32) :
    (x >>> nBits.toUInt32).toNat = x.toNat / 2 ^ nBits.toNat := by
  rw [UInt32.toNat_shiftRight, shift_toNat h, Nat.shiftRight_eq_div_pow]

theorem valid_iff {s : Entropy} {l : List Bool} (hs : s.Holds l) (h : nBits < 32) :
    s.entropyMask &&& ((1 <<< nBits.toUInt32) - 1 : UInt32) = (1 <<< nBits.toUInt32) - 1 ↔
      nBits.toNat ≤ l.length := by
  rw [← UInt32.toNat_inj, UInt32.toNat_and, mask_toNat h, hs.entropyMask]
  constructor
  · intro heq
    by_contra hlt
    have hbit := congrArg (fun x => x.testBit l.length) heq
    simp only [Nat.testBit_and, Nat.testBit_two_pow_sub_one, Nat.lt_irrefl, decide_false,
      Bool.false_and] at hbit
    exact absurd hbit.symm (by simpa using hlt)
  · intro hle
    rw [Nat.and_comm]
    refine Nat.and_two_pow_sub_one_of_lt_two_pow ?_
    exact Nat.lt_of_lt_of_le (Nat.sub_lt (Nat.two_pow_pos _) Nat.one_pos)
      (Nat.pow_le_pow_right (by decide) hle)

/-- A request takes its bits off the front of `l`, or fails when there are too few. -/
def Entropy.Serves (s : Entropy) (l : List Bool) (nBits : UInt8) : Prop :=
  if nBits.toNat ≤ l.length then
    ∃ output s', rngRandomBits nBits s = .ok (output, s') ∧ output.toNat < 2 ^ nBits.toNat ∧
      bits nBits.toNat output.toNat = l.take nBits.toNat ∧ s'.Holds (l.drop nBits.toNat)
  else rngRandomBits nBits s = .error (.assertion "Insufficient entropy\n")

/-- **A request for fewer than 32 bits.** -/
theorem Entropy.Holds.serves {s : Entropy} {l : List Bool} (hs : s.Holds l) (h : nBits < 32) :
    s.Serves l nBits := by
  have hvalid := valid_iff hs h
  unfold Entropy.Serves
  split
  · rename_i hle
    have hok : rngRandomBits nBits s = .ok (s.entropy &&& ((1 <<< nBits.toUInt32) - 1 : UInt32),
        ⟨s.entropy >>> nBits.toUInt32, s.entropyMask >>> nBits.toUInt32⟩) :=
      if_neg (not_not.mpr (hvalid.mpr hle))
    refine ⟨_, _, hok, ?_, ?_, ?_⟩
    · rw [UInt32.toNat_and, mask_toNat h, Nat.and_two_pow_sub_one_eq_mod]
      exact Nat.mod_lt _ (Nat.two_pow_pos _)
    · rw [UInt32.toNat_and, mask_toNat h, Nat.and_two_pow_sub_one_eq_mod, bits_mod,
        ← bits_take hle, hs.bits]
    · constructor
      · rw [shiftRight_toNat h, List.length_drop, ← bits_drop, hs.bits]
      · rw [shiftRight_toNat h, List.length_drop]
        refine Nat.div_lt_of_lt_mul ?_
        rw [← Nat.pow_add, Nat.add_sub_of_le hle]
        exact hs.entropy
      · rw [shiftRight_toNat h, hs.entropyMask, List.length_drop]
        rw [← Nat.add_sub_of_le hle, Nat.pow_add, Nat.add_sub_cancel_left]
        exact mul_pred_div (Nat.two_pow_pos _) (Nat.two_pow_pos _)
  · rename_i hlt
    exact if_pos fun heq => hlt (hvalid.mp heq)

/-- A request for a whole word shifts by nothing: no bit is taken and none is missed. -/
theorem rngRandomBits_word (s : Entropy) : rngRandomBits 32 s = .ok (0, s) := by
  have hmask : (1 <<< (32 : UInt8).toUInt32) - 1 = (0 : UInt32) := rfl
  have hshift : ∀ x : UInt32, x >>> (32 : UInt8).toUInt32 = x := fun x => by
    rw [← UInt32.toNat_inj, UInt32.toNat_shiftRight]
    rfl
  simp only [rngRandomBits, hmask, hshift, UInt32.and_zero]
  rfl

/-- **Of the requests for at most a word, the one for a word is not served.** -/
theorem Entropy.Holds.serves_iff {s : Entropy} {l : List Bool} (hs : s.Holds l)
    (h : nBits ≤ 32) : s.Serves l nBits ↔ nBits < 32 := by
  refine ⟨fun hserves => ?_, hs.serves⟩
  by_contra hword
  have hle : nBits.toNat ≤ 32 := UInt8.le_iff_toNat_le.mp h
  have hge : ¬ nBits.toNat < 32 := fun hlt => hword (UInt8.lt_iff_toNat_lt.mpr hlt)
  obtain rfl : nBits = 32 := by
    rw [← UInt8.toNat_inj]
    exact Nat.le_antisymm hle (Nat.not_lt.mp hge)
  unfold Entropy.Serves at hserves
  rw [rngRandomBits_word] at hserves
  split at hserves
  · rename_i hlong
    obtain ⟨output, s', hok, -, -, hs'⟩ := hserves
    obtain ⟨-, rfl⟩ := Prod.mk.inj (Except.ok.inj hok)
    have hmask := hs.entropyMask.symm.trans hs'.entropyMask
    change 32 ≤ l.length at hlong
    have hlt : 2 ^ (l.length - 32) < 2 ^ l.length := Nat.pow_lt_pow_right (by decide) (by omega)
    have hpos : 0 < 2 ^ (l.length - 32) := Nat.two_pow_pos _
    change 2 ^ l.length - 1 = 2 ^ (l.drop 32).length - 1 at hmask
    rw [List.length_drop] at hmask
    omega
  · cases hserves

end

/-! ## Runs -/

inductive Event where
  | init
  | push (newEntropy : UInt32)
  | random (nBits : UInt8) (output : UInt32)
  deriving DecidableEq, Repr

inductive Step : Entropy → Event → Entropy → Prop
  | init {s} : Step s .init rngInit
  | push {s} (e : UInt32) : Step s (.push e) (rngPushEntropy e)
  | random {s nBits output s'} (h : rngRandomBits nBits s = .ok (output, s')) :
    Step s (.random nBits output) s'

/-- The calls that return, from the zeroed variables on. -/
def rng : Labelled Entropy Event where
  init := ⟨0, 0⟩
  step := Step

/-- The bits of the last entropy pushed. -/
def fresh (log : List Event) : List Bool :=
  log.foldl (fun l e => match e with
    | .init => []
    | .push newEntropy => bits 32 newEntropy.toNat
    | .random _ _ => l) []

/-- The bits returned since. -/
def returned (log : List Event) : List Bool :=
  log.foldl (fun l e => match e with
    | .init => []
    | .push _ => []
    | .random nBits output => l ++ bits nBits.toNat output.toNat) []

/-- Requests for fewer bits than a word. -/
def Short (log : List Event) : Prop := ∀ nBits output, .random nBits output ∈ log → nBits < 32

theorem holds_of_runs {log : List Event} {s : Entropy} (h : rng.Runs log s) (hshort : Short log) :
    ∃ l, fresh log = returned log ++ l ∧ (fresh log).length ≤ 32 ∧ s.Holds l := by
  induction h with
  | init => exact ⟨[], rfl, Nat.zero_le _, rngInit_holds⟩
  | @step log s s' e hruns hstep ih =>
    obtain ⟨l, hsplit, hlength, hs⟩ := ih fun n v hmem => hshort n v (List.mem_append_left _ hmem)
    cases hstep with
    | init =>
      refine ⟨[], ?_, ?_, rngInit_holds⟩ <;> simp [fresh, returned]
    | push newEntropy =>
      refine ⟨bits 32 newEntropy.toNat, ?_, ?_, rngPushEntropy_holds newEntropy⟩ <;>
        simp [fresh, returned]
    | @random nBits output _ hok =>
      have hlt := hshort nBits output (List.mem_append_right _ (List.mem_singleton_self _))
      have hserves := hs.serves hlt
      unfold Entropy.Serves at hserves
      split at hserves
      · obtain ⟨output', s'', hok', -, hbits, hs'⟩ := hserves
        obtain ⟨rfl, rfl⟩ := Prod.mk.inj (Except.ok.inj (hok'.symm.trans hok))
        refine ⟨l.drop nBits.toNat, ?_, ?_, hs'⟩
        · have hfresh : fresh (log ++ [.random nBits output']) = fresh log := by simp [fresh]
          have hreturned : returned (log ++ [.random nBits output']) =
              returned log ++ bits nBits.toNat output'.toNat := by simp [returned]
          rw [hfresh, hreturned, hbits, List.append_assoc, List.take_append_drop, hsplit]
        · simpa [fresh] using hlength
      · cases hserves.symm.trans hok

/-- **No bit is made up or returned twice.** While no whole word is requested, the outputs
since the last push are the low bits of the entropy, and the next request gets the bits
after them or fails. -/
theorem entropy_once {log : List Event} {s : Entropy} (h : rng.Runs log s) (hshort : Short log) :
    returned log <+: fresh log ∧ (fresh log).length ≤ 32 ∧
      ∀ nBits < 32, s.Serves ((fresh log).drop (returned log).length) nBits := by
  obtain ⟨l, hsplit, hlength, hs⟩ := holds_of_runs h hshort
  refine ⟨⟨l, hsplit.symm⟩, hlength, fun nBits hlt => ?_⟩
  rw [hsplit, List.drop_left]
  exact hs.serves hlt

/-- Two bytes of a word. -/
theorem entropy_once_bytes :
    ∃ log s, rng.Runs log s ∧ log = [.push 0xABCD, .random 8 0xCD, .random 8 0xAB] ∧
      returned log <+: fresh log := by
  have hpush : rng.Runs [.push 0xABCD] _ := .step .init (.push 0xABCD)
  have hlow : rng.Runs [.push 0xABCD, .random 8 0xCD] _ := hpush.step (.random rfl)
  have hruns : rng.Runs [.push 0xABCD, .random 8 0xCD, .random 8 0xAB] _ := hlow.step (.random rfl)
  refine ⟨_, _, hruns, rfl, (entropy_once hruns ?_).1⟩
  intro nBits output hmem
  simp only [List.mem_cons, Event.random.injEq, List.not_mem_nil, or_false, reduceCtorEq,
    false_or] at hmem
  rcases hmem with ⟨rfl, -⟩ | ⟨rfl, -⟩ <;> decide

/-- A whole word is requested, and zero returned. -/
theorem entropy_made_up :
    ∃ log s, rng.Runs log s ∧ (∀ nBits output, .random nBits output ∈ log → nBits ≤ 32) ∧
      ¬ returned log <+: fresh log := by
  have hpush : rng.Runs [.push 5] (rngPushEntropy 5) := .step .init (.push 5)
  have hruns : rng.Runs [.push 5, .random 32 0] _ :=
    hpush.step (.random (rngRandomBits_word (rngPushEntropy 5)))
  refine ⟨_, _, hruns, ?_, by decide⟩
  intro nBits output hmem
  simp only [List.mem_cons, Event.random.injEq, List.not_mem_nil, or_false, reduceCtorEq,
    false_or] at hmem
  obtain ⟨rfl, -⟩ := hmem
  decide

end AiDeck.Rng
