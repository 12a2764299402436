import AiDeck.Uart.Protocol

/-! # What holds at each point of the receive loop

A window is one pass of the outer loop: it starts at a stream position `p` and
the buffer holds the bytes received from there on. `Inv` says, point by point, how
far the window has been scanned and what is in the buffer; one step lemma for
each point carries it on. -/
namespace AiDeck.Uart
open AiDeck.Lib.Bytes AiDeck.Crc32

theorem MsgKind.length_pos (k : MsgKind) : 0 < k.length := by cases k <;> decide

theorem MsgKind.length_le (k : MsgKind) : 4 ≤ k.length ∧ k.length ≤ 68 := by
  cases k <;> decide

theorem MsgKind.header_length (k : MsgKind) : k.header.length = 4 := by cases k <;> rfl

theorem matchHeader_eq_some {m : Nat → UInt8} {p : Nat} {k : MsgKind} :
    matchHeader m p = some k ↔ segment m p 4 = k.header := by
  unfold matchHeader uartHeaderLength
  by_cases hs : segment m p 4 = MsgKind.state.header
  · rw [if_pos hs, hs]; cases k <;> simp [MsgKind.header]
  rw [if_neg hs]
  by_cases hr : segment m p 4 = MsgKind.rng.header
  · rw [if_pos hr, hr]; cases k <;> simp [MsgKind.header]
  rw [if_neg hr]
  by_cases ht : segment m p 4 = MsgKind.tof.header
  · rw [if_pos ht, ht]; cases k <;> simp [MsgKind.header]
  rw [if_neg ht]
  cases k <;> simp [hs, hr, ht]

theorem matchHeader_congr {m m' : Nat → UInt8} {p q : Nat}
    (h : ∀ i < 4, m (p + i) = m' (q + i)) : matchHeader m p = matchHeader m' q := by
  unfold matchHeader uartHeaderLength
  rw [segment_congr h]

/-- No header starts before offset `d` of the window. -/
def Scanned (uart : Nat → UInt8) (p d : Nat) : Prop := ∀ i < d, matchHeader uart (p + i) = none

/-- The first `available` cells of the buffer are the window's bytes. -/
def Holds (uart : Nat → UInt8) (p : Nat) (s : Parser) : Prop :=
  s.received = p + s.availableLength ∧ ∀ i < s.availableLength, s.buffer i = uart (p + i)

/-- The first header of the window is one of kind `k` at the scan's offset, and
the reads have gone at most three bytes past it. -/
structure Found (uart : Nat → UInt8) (p : Nat) (k : MsgKind) (s : Parser) : Prop where
  scanned : Scanned uart p s.discardedLength
  header : matchHeader uart (p + s.discardedLength) = some k
  low : s.discardedLength + 4 ≤ 128
  message : s.message = s.discardedLength
  length : s.messageLength = k.length

/-- The reads have just covered offset `d`. -/
def Covers (available d : Nat) : Prop := d + 4 ≤ available ∧ available ≤ d + 7 ∧ available % 4 = 0

/-- `total_length` for a message of kind `k` at offset `d`. -/
def totalFor (d : Nat) (k : MsgKind) : Nat := d + 8 + k.length

/-- The bytes of the message at stream position `q` carry their own checksum. -/
def ChecksumOk (uart : Nat → UInt8) (q : Nat) (k : MsgKind) : Prop :=
  crc32 (segment uart q (4 + k.length)) = ofLE32 (segment uart (q + (4 + k.length)) 4)

instance (uart : Nat → UInt8) (q : Nat) (k : MsgKind) : Decidable (ChecksumOk uart q k) :=
  inferInstanceAs (Decidable (_ = _))

/-- `p` is where the current window starts (at `restart`, the window just left). -/
def Inv (uart : Nat → UInt8) (p : Nat) (s : Parser) : Prop :=
  match s.point with
  | .restart => s.received = p + s.availableLength
  | .scan => Holds uart p s ∧ Scanned uart p s.discardedLength ∧ s.messageLength = 0 ∧
      Covers s.availableLength s.discardedLength ∧ s.discardedLength + 4 ≤ 128
  | .refill => Holds uart p s ∧ Scanned uart p s.discardedLength ∧ s.messageLength = 0 ∧
      s.availableLength = s.discardedLength + 3 ∧ s.availableLength % 4 = 0 ∧
      s.discardedLength + 4 ≤ 128
  | .accept => Holds uart p s ∧
      ((s.messageLength = 0 ∧ Scanned uart p 125 ∧ s.availableLength = 128) ∨
        ∃ k, Found uart p k s ∧ Covers s.availableLength s.discardedLength)
  | .body => Holds uart p s ∧ ∃ k, Found uart p k s ∧
      Covers s.availableLength s.discardedLength ∧
      s.totalLength = totalFor s.discardedLength k ∧ s.totalLength ≤ 128
  | .check => Holds uart p s ∧ ∃ k, Found uart p k s ∧ s.availableLength = s.totalLength ∧
      s.totalLength = totalFor s.discardedLength k ∧ s.totalLength ≤ 128
  | .deliver => s.received = p + s.availableLength ∧ ∃ k, Found uart p k s ∧
      s.availableLength = s.totalLength ∧ s.totalLength = totalFor s.discardedLength k ∧
      s.totalLength ≤ 128 ∧ ChecksumOk uart (p + s.message) k ∧
      segment s.buffer s.message (4 + k.length) = segment uart (p + s.message) (4 + k.length) ∧
      segment s.buffer (s.message + offsetofChecksum) 4 =
        toLE32 (ofLE32 (segment uart (p + s.message + (4 + k.length)) 4))

/-! ## Reading -/

@[simp] theorem uartRead_received (s : Parser) (uart : Nat → UInt8) (n : Nat) :
    (s.uartRead uart n).received = s.received + n := rfl
@[simp] theorem uartRead_availableLength (s : Parser) (uart : Nat → UInt8) (n : Nat) :
    (s.uartRead uart n).availableLength = s.availableLength + n := rfl
@[simp] theorem uartRead_discardedLength (s : Parser) (uart : Nat → UInt8) (n : Nat) :
    (s.uartRead uart n).discardedLength = s.discardedLength := rfl
@[simp] theorem uartRead_messageLength (s : Parser) (uart : Nat → UInt8) (n : Nat) :
    (s.uartRead uart n).messageLength = s.messageLength := rfl
@[simp] theorem uartRead_totalLength (s : Parser) (uart : Nat → UInt8) (n : Nat) :
    (s.uartRead uart n).totalLength = s.totalLength := rfl
@[simp] theorem uartRead_message (s : Parser) (uart : Nat → UInt8) (n : Nat) :
    (s.uartRead uart n).message = s.message := rfl
@[simp] theorem uartRead_deliveries (s : Parser) (uart : Nat → UInt8) (n : Nat) :
    (s.uartRead uart n).deliveries = s.deliveries := rfl

/-- A read appends the next bytes of the window. -/
theorem Holds.uartRead {uart : Nat → UInt8} {p : Nat} {s : Parser} (h : Holds uart p s) (n : Nat) :
    Holds uart p (s.uartRead uart n) := by
  obtain ⟨hr, hb⟩ := h
  refine ⟨by simp [hr, Nat.add_assoc], ?_⟩
  intro i hi
  change i < s.availableLength + n at hi
  change overwrite s.buffer s.availableLength (segment uart s.received n) i = _
  by_cases ha : i < s.availableLength
  · rw [overwrite_before _ _ ha]; exact hb i ha
  · obtain ⟨j, rfl⟩ := Nat.exists_eq_add_of_le (Nat.le_of_not_lt ha)
    rw [overwrite_at _ _ (by simp; omega), segment_getElem, hr, Nat.add_assoc]

theorem Holds.matchHeader {uart : Nat → UInt8} {p d : Nat} {s : Parser} (h : Holds uart p s)
    (hd : d + 4 ≤ s.availableLength) : matchHeader s.buffer d = matchHeader uart (p + d) := by
  apply matchHeader_congr
  intro i hi
  rw [h.2 _ (by omega), Nat.add_assoc]

theorem Scanned.succ {uart : Nat → UInt8} {p d : Nat} (h : Scanned uart p d)
    (hd : matchHeader uart (p + d) = none) : Scanned uart p (d + 1) := by
  intro i hi
  rcases Nat.lt_succ_iff_lt_or_eq.mp hi with hlt | rfl
  · exact h i hlt
  · exact hd

/-! ## One step lemma for each point -/

variable {uart : Nat → UInt8} {p : Nat} {s : Parser}

/-- A new window starts at the bytes not received yet. -/
theorem inv_stepRestart (uart : Nat → UInt8) (s : Parser) :
    Inv uart s.received (stepRestart uart s) := by
  refine ⟨Holds.uartRead ?_ _, ?_, rfl, ?_, ?_⟩
  · exact ⟨rfl, fun i hi => absurd hi (Nat.not_lt_zero i)⟩
  · intro i hi; exact absurd hi (Nat.not_lt_zero i)
  · exact ⟨Nat.le_refl 4, Nat.le_add_left 4 3, Nat.mod_self 4⟩
  · exact Nat.le_add_left 4 124

theorem inv_stepScan (hp : s.point = .scan) (h : Inv uart p s) : Inv uart p (stepScan s) := by
  simp only [Inv, hp] at h
  obtain ⟨hh, hs, hm, hc, hd⟩ := h
  have hmatch := hh.matchHeader hc.1
  rw [stepScan, hmatch]
  cases hk : matchHeader uart (p + s.discardedLength) with
  | some k => exact ⟨hh, .inr ⟨k, ⟨hs, hk, hd, rfl, rfl⟩, hc⟩⟩
  | none =>
    have hs' := hs.succ hk
    obtain ⟨h1, h2, h3⟩ := hc
    by_cases hfull : s.discardedLength + 1 + uartReadSize > uartBufferLength
    · -- give up: the buffer is full and no offset in it starts a header
      have hlast : s.discardedLength + 1 + 4 > 128 := hfull
      have hd' : s.discardedLength = 124 := by omega
      have ha : s.availableLength = 128 := by omega
      rw [hd'] at hs'
      rw [if_pos hfull]
      exact ⟨hh, .inl ⟨hm, hs', ha⟩⟩
    · have hlast : ¬ s.discardedLength + 1 + 4 > 128 := hfull
      have hd' : s.discardedLength + 1 + 4 ≤ 128 := by omega
      rw [if_neg hfull]
      by_cases hmore : s.discardedLength + 1 + uartHeaderLength > s.availableLength
      · have ha : s.availableLength = s.discardedLength + 1 + 3 := by
          have hmore' : s.discardedLength + 1 + 4 > s.availableLength := hmore
          omega
        rw [if_pos hmore]
        exact ⟨hh, hs', hm, ha, h3, hd'⟩
      · have hlo : s.discardedLength + 1 + 4 ≤ s.availableLength := Nat.le_of_not_lt hmore
        have hhi : s.availableLength ≤ s.discardedLength + 1 + 7 := by omega
        rw [if_neg hmore]
        exact ⟨hh, hs', hm, ⟨hlo, hhi, h3⟩, hd'⟩

theorem inv_stepRefill (hp : s.point = .refill) (h : Inv uart p s) :
    Inv uart p { s.uartRead uart uartReadSize with point := .scan } := by
  simp only [Inv, hp] at h
  obtain ⟨hh, hs, hm, ha, h4, hd⟩ := h
  have hlo : s.discardedLength + 4 ≤ s.availableLength + 4 := by omega
  have hhi : s.availableLength + 4 ≤ s.discardedLength + 7 := by omega
  have hmod : (s.availableLength + 4) % 4 = 0 := by omega
  exact ⟨hh.uartRead uartReadSize, hs, hm, ⟨hlo, hhi, hmod⟩, hd⟩

theorem inv_stepAccept (hp : s.point = .accept) (h : Inv uart p s) : Inv uart p (stepAccept s) := by
  simp only [Inv, hp] at h
  obtain ⟨hh, hm | ⟨k, hf, hc⟩⟩ := h
  · rw [stepAccept, if_pos hm.1]; exact hh.1
  · have hk := k.length_pos
    rw [stepAccept, if_neg (by rw [hf.length]; omega)]
    by_cases hlong : s.discardedLength + uartHeaderLength + s.messageLength + uartChecksumLength >
        uartBufferLength
    · rw [if_pos hlong]; exact hh.1
    · have hle : s.discardedLength + 4 + s.messageLength + 4 ≤ 128 := Nat.le_of_not_lt hlong
      have ht : s.discardedLength + 4 + s.messageLength + 4 = totalFor s.discardedLength k := by
        rw [hf.length, totalFor]; omega
      rw [if_neg hlong]
      exact ⟨hh, k, ⟨hf.scanned, hf.header, hf.low, hf.message, hf.length⟩, hc, ht, hle⟩

theorem inv_stepBody (hp : s.point = .body) (h : Inv uart p s) : Inv uart p (stepBody uart s) := by
  simp only [Inv, hp] at h
  obtain ⟨hh, k, hf, ⟨h1, h2, h3⟩, ht, hle⟩ := h
  have hk := k.length_le
  simp only [totalFor] at ht
  have hrem : (s.totalLength : Int) - s.availableLength > 0 := by omega
  have ha : s.availableLength + ((s.totalLength : Int) - s.availableLength).toNat =
      s.totalLength := by omega
  rw [stepBody, if_pos hrem]
  exact ⟨hh.uartRead _, k, ⟨hf.scanned, hf.header, hf.low, hf.message, hf.length⟩, ha, ht, hle⟩

/-- A stretch of the window that has been received. -/
theorem Holds.segment {q n : Nat} (h : Holds uart p s) (hn : q + n ≤ s.availableLength) :
    segment s.buffer q n = Lib.Bytes.segment uart (p + q) n := by
  apply segment_congr
  intro i hi
  rw [h.2 _ (by omega), Nat.add_assoc]

/-- The two stores behind the message change neither its header nor its payload. -/
theorem complete_message (k : MsgKind) (now : UInt32) (s : Parser) :
    segment (s.complete now).buffer s.message (4 + k.length) =
      segment s.buffer s.message (4 + k.length) := by
  have hk := k.length_le
  have hc : offsetofChecksum = 72 := rfl
  have ht : offsetofRecvTimestamp = 76 := rfl
  calc segment (s.complete now).buffer s.message (4 + k.length)
      = segment (overwrite s.buffer (s.message + offsetofChecksum) (toLE32 (ofLE32
          (segment s.buffer (s.message + uartHeaderLength + s.messageLength) 4))))
          s.message (4 + k.length) := segment_overwrite_disjoint _ _ (.inl (by omega))
    _ = segment s.buffer s.message (4 + k.length) :=
        segment_overwrite_disjoint _ _ (.inl (by omega))

theorem complete_checksum (now : UInt32) (s : Parser) :
    segment (s.complete now).buffer (s.message + offsetofChecksum) 4 =
      toLE32 (ofLE32 (segment s.buffer (s.message + uartHeaderLength + s.messageLength) 4)) := by
  have ht : offsetofRecvTimestamp = offsetofChecksum + 4 := rfl
  calc segment (s.complete now).buffer (s.message + offsetofChecksum) 4
      = segment (overwrite s.buffer (s.message + offsetofChecksum) (toLE32 (ofLE32
          (segment s.buffer (s.message + uartHeaderLength + s.messageLength) 4))))
          (s.message + offsetofChecksum) 4 := segment_overwrite_disjoint _ _ (.inl (by omega))
    _ = _ := segment_overwrite _ _ _

/-- The message completed in the buffer is the one on the stream. -/
theorem Holds.complete {k : MsgKind} (hh : Holds uart p s) (now : UInt32)
    (hl : s.messageLength = k.length) (ha : s.message + 8 + k.length ≤ s.availableLength) :
    Lib.Bytes.segment (s.complete now).buffer s.message (4 + k.length) =
        Lib.Bytes.segment uart (p + s.message) (4 + k.length) ∧
      Lib.Bytes.segment (s.complete now).buffer (s.message + offsetofChecksum) 4 =
        toLE32 (ofLE32 (Lib.Bytes.segment uart (p + s.message + (4 + k.length)) 4)) := by
  constructor
  · rw [complete_message, hh.segment (by omega)]
  · have hq : s.message + uartHeaderLength + s.messageLength = s.message + (4 + k.length) := by
      rw [hl, Nat.add_assoc]
    rw [complete_checksum, hq, hh.segment (by omega), Nat.add_assoc]

/-- The comparison of the task is the one of the bytes on the stream. -/
theorem Holds.checksum_iff {k : MsgKind} (hh : Holds uart p s) (now : UInt32)
    (hl : s.messageLength = k.length) (ha : s.message + 8 + k.length ≤ s.availableLength) :
    crc32 (Lib.Bytes.segment (s.complete now).buffer (s.complete now).message
        (uartHeaderLength + (s.complete now).messageLength)) =
      ofLE32 (Lib.Bytes.segment (s.complete now).buffer
        ((s.complete now).message + offsetofChecksum) 4) ↔ ChecksumOk uart (p + s.message) k := by
  obtain ⟨hmsg, hsum⟩ := hh.complete now hl ha
  have hm : (s.complete now).message = s.message := rfl
  have hlen : uartHeaderLength + (s.complete now).messageLength = 4 + k.length := by
    rw [← hl]; rfl
  rw [hm, hlen, hmsg, hsum, ofLE32_toLE32, ChecksumOk]

theorem inv_stepCheck (now : UInt32) (hp : s.point = .check) (h : Inv uart p s) :
    Inv uart p (stepCheck now s) := by
  simp only [Inv, hp] at h
  obtain ⟨hh, k, hf, ha, ht, hle⟩ := h
  have hend : s.message + 8 + k.length ≤ s.availableLength := by
    simp only [totalFor] at ht
    rw [hf.message]; omega
  obtain ⟨hmsg, hsum⟩ := hh.complete now hf.length hend
  rw [stepCheck]
  split
  · exact hh.1
  · rename_i hne
    have hcrc := (hh.checksum_iff now hf.length hend).mp (not_not.mp hne)
    exact ⟨hh.1, k, ⟨hf.scanned, hf.header, hf.low, hf.message, hf.length⟩, ha, ht, hle, hcrc,
      hmsg, hsum⟩

theorem inv_stepDeliver (hp : s.point = .deliver) (h : Inv uart p s) :
    Inv uart p (stepDeliver s) := by
  simp only [Inv, hp] at h
  exact h.1

/-- Where the window of the next step starts. -/
def windowOf (p : Nat) (s : Parser) : Nat := if s.point = .restart then s.received else p

theorem Inv.le_windowOf (h : Inv uart p s) : p ≤ windowOf p s := by
  unfold windowOf
  split
  · rename_i hp
    simp only [Inv, hp] at h
    omega
  · exact Nat.le_refl p

theorem Inv.windowOf_le (h : Inv uart p s) : windowOf p s ≤ s.received := by
  unfold windowOf
  cases hp : s.point with
  | restart => simp
  | scan | refill | accept | body | check =>
    simp only [Inv, hp] at h
    have := h.1.1
    simp only [reduceCtorEq, if_false]
    omega
  | deliver =>
    simp only [Inv, hp] at h
    simp only [reduceCtorEq, if_false]
    omega

/-- One step keeps the invariant: a new window starts only at `restart`. -/
theorem inv_step (now : UInt32) (h : Inv uart p s) :
    Inv uart (windowOf p s) (uartProtocolTask uart now s) := by
  unfold uartProtocolTask windowOf
  cases hp : s.point with
  | restart => exact inv_stepRestart uart s
  | scan => exact inv_stepScan hp h
  | refill => exact inv_stepRefill hp h
  | accept => exact inv_stepAccept hp h
  | body => exact inv_stepBody hp h
  | check => exact inv_stepCheck now hp h
  | deliver => exact inv_stepDeliver hp h

/-- Every state of a run lies in some window. -/
theorem run_inv (w : World) (n : Nat) : ∃ p, Inv w.uart p (run w n) := by
  induction n with
  | zero => exact ⟨0, rfl⟩
  | succ n ih =>
    obtain ⟨p, h⟩ := ih
    exact ⟨_, inv_step (w.timeGetUs n) h⟩

end AiDeck.Uart
