import AiDeck.Uart.Invariant

/-! # One window of the receive loop, from restart to restart

The outer loop as a transition on stream positions: a window that starts at `p`
looks for the first header among its 125 offsets and goes on behind what it has
read. `window_run` connects the task to this transition; what the parser does to
a whole stream is then a question about positions only. -/
namespace AiDeck.Uart
open AiDeck.Lib.Bytes AiDeck.Crc32

/-- `d` is the offset of the first header of the window at `p`, and its kind is `k`. -/
structure FirstHeader (uart : Nat → UInt8) (p d : Nat) (k : MsgKind) : Prop where
  scanned : Scanned uart p d
  header : matchHeader uart (p + d) = some k
  low : d + 4 ≤ 128

/-- The bytes read when the scan has reached offset `d`. -/
def readUpTo (d : Nat) : Nat := (d + 4 + 3) / 4 * 4

theorem Covers.eq {a d : Nat} (h : Covers a d) : a = readUpTo d := by
  obtain ⟨h1, h2, h3⟩ := h
  unfold readUpTo
  omega

/-- A window from `p` to `p'`; a message handed over is named by its position
and its kind. -/
inductive Window (uart : Nat → UInt8) (p : Nat) : Option (Nat × MsgKind) → Nat → Prop
  /-- the buffer is full and no header has been found -/
  | skip (h : Scanned uart p 125) : Window uart p none (p + 128)
  /-- the message found would end past the buffer -/
  | tooLong {d : Nat} {k : MsgKind} (h : FirstHeader uart p d k) (hl : 128 < totalFor d k) :
      Window uart p none (p + readUpTo d)
  /-- the message found has a wrong checksum -/
  | corrupt {d : Nat} {k : MsgKind} (h : FirstHeader uart p d k) (hl : totalFor d k ≤ 128)
      (hc : ¬ ChecksumOk uart (p + d) k) : Window uart p none (p + totalFor d k)
  | message {d : Nat} {k : MsgKind} (h : FirstHeader uart p d k) (hl : totalFor d k ≤ 128)
      (hc : ChecksumOk uart (p + d) k) : Window uart p (some (p + d, k)) (p + totalFor d k)

theorem FirstHeader.unique {uart : Nat → UInt8} {p d d' : Nat} {k k' : MsgKind}
    (h : FirstHeader uart p d k) (h' : FirstHeader uart p d' k') : d = d' ∧ k = k' := by
  have hd : d = d' := by
    rcases Nat.lt_trichotomy d d' with hlt | he | hlt
    · have := h'.scanned d hlt; rw [h.header] at this; cases this
    · exact he
    · have := h.scanned d' hlt; rw [h'.header] at this; cases this
  subst hd
  exact ⟨rfl, Option.some.inj (h.header.symm.trans h'.header)⟩

theorem FirstHeader.not_scanned {uart : Nat → UInt8} {p d : Nat} {k : MsgKind}
    (h : FirstHeader uart p d k) : ¬ Scanned uart p 125 := by
  intro hs
  have := hs d (by have := h.low; omega)
  rw [h.header] at this; cases this

/-- The stream decides what a window does. -/
theorem Window.unique {uart : Nat → UInt8} {p q q' : Nat} {o o' : Option (Nat × MsgKind)}
    (h : Window uart p o q) (h' : Window uart p o' q') : o = o' ∧ q = q' := by
  cases h with
  | skip hs =>
    cases h' with
    | skip => exact ⟨rfl, rfl⟩
    | tooLong hf | corrupt hf | message hf => exact absurd hs hf.not_scanned
  | tooLong hf hl =>
    cases h' with
    | skip hs => exact absurd hs hf.not_scanned
    | tooLong hf' hl' | corrupt hf' hl' | message hf' hl' =>
      obtain ⟨rfl, rfl⟩ := hf.unique hf'
      first | exact ⟨rfl, rfl⟩ | omega
  | corrupt hf hl hc =>
    cases h' with
    | skip hs => exact absurd hs hf.not_scanned
    | tooLong hf' hl' | corrupt hf' hl' | message hf' hl' =>
      obtain ⟨rfl, rfl⟩ := hf.unique hf'
      first | exact ⟨rfl, rfl⟩ | omega | contradiction
  | message hf hl hc =>
    cases h' with
    | skip hs => exact absurd hs hf.not_scanned
    | tooLong hf' hl' | corrupt hf' hl' | message hf' hl' =>
      obtain ⟨rfl, rfl⟩ := hf.unique hf'
      first | exact ⟨rfl, rfl⟩ | omega | contradiction

/-- `d` is what the callback gets for the message of kind `k` at position `q`. -/
structure Delivery.Carries (uart : Nat → UInt8) (d : Delivery) (q : Nat) (k : MsgKind) : Prop where
  start : d.start = q
  header : d.message.header = segment uart q 4
  payload : d.message.body.take k.length = segment uart (q + 4) k.length
  checksum : d.message.checksum = ofLE32 (segment uart (q + (4 + k.length)) 4)
  total : d.availableLength = d.totalLength
  consumed : d.received = q + (8 + k.length)

/-! ## The steps of one window -/

variable {w : World} {p n : Nat}

theorem run_succ (w : World) (n : Nat) :
    run w (n + 1) = uartProtocolTask w.uart (w.timeGetUs n) (run w n) := rfl

theorem deliveries_step {uart : Nat → UInt8} (now : UInt32) {s : Parser} (h : s.point ≠ .deliver) :
    (uartProtocolTask uart now s).deliveries = s.deliveries := by
  unfold uartProtocolTask
  cases hp : s.point with
  | restart => rfl
  | scan =>
    simp only [stepScan]
    cases matchHeader s.buffer s.discardedLength with
    | some k => rfl
    | none =>
      simp only
      split
      · rfl
      · split <;> rfl
  | refill => rfl
  | accept =>
    simp only [stepAccept]
    split
    · rfl
    · split <;> rfl
  | body => simp only [stepBody]; split <;> rfl
  | check => simp only [stepCheck]; split <;> rfl
  | deliver => exact absurd hp h

/-- The scan ends: a header is found or the buffer is full. -/
theorem scan_ends (m : Nat) :
    ∀ n, (run w n).point = .scan → Inv w.uart p (run w n) →
      124 - (run w n).discardedLength = m →
      ∃ n' > n, (run w n').point = .accept ∧ Inv w.uart p (run w n') ∧
        (run w n').deliveries = (run w n).deliveries := by
  induction m using Nat.strongRecOn with
  | ind m ih =>
    intro n hp hi hm
    have hstep : run w (n + 1) = stepScan (run w n) := by rw [run_succ, uartProtocolTask, hp]
    have hi' : Inv w.uart p (run w (n + 1)) := by rw [hstep]; exact inv_stepScan hp hi
    have hd' : (run w (n + 1)).deliveries = (run w n).deliveries :=
      deliveries_step _ (by rw [hp]; decide)
    simp only [Inv, hp] at hi
    have hlow := hi.2.2.2.2
    cases hk : matchHeader (run w n).buffer (run w n).discardedLength with
    | some k =>
      refine ⟨n + 1, Nat.lt_succ_self n, ?_, hi', hd'⟩
      rw [hstep, stepScan, hk]
    | none =>
      by_cases hfull : (run w n).discardedLength + 1 + uartReadSize > uartBufferLength
      · refine ⟨n + 1, Nat.lt_succ_self n, ?_, hi', hd'⟩
        rw [hstep, stepScan, hk]
        simp only
        rw [if_pos hfull]
      · have hfull' : ¬ (run w n).discardedLength + 1 + 4 > 128 := hfull
        by_cases hmore : (run w n).discardedLength + 1 + uartHeaderLength >
            (run w n).availableLength
        · -- one more read before the next comparison
          have hnext : (run w (n + 1)).point = .refill ∧
              (run w (n + 1)).discardedLength = (run w n).discardedLength + 1 := by
            rw [hstep, stepScan, hk]
            simp only
            rw [if_neg hfull, if_pos hmore]
            exact ⟨rfl, rfl⟩
          have hstep2 : run w (n + 2) =
              { (run w (n + 1)).uartRead w.uart uartReadSize with point := .scan } := by
            rw [run_succ, uartProtocolTask, hnext.1]
          have hi2 : Inv w.uart p (run w (n + 2)) := by
            rw [hstep2]; exact inv_stepRefill hnext.1 hi'
          obtain ⟨n', hn', hacc, hinv, hdel⟩ := ih (124 - (run w (n + 2)).discardedLength)
            (by rw [hstep2]; simp only [uartRead_discardedLength, hnext.2]; omega)
            (n + 2) (by rw [hstep2]) hi2 rfl
          refine ⟨n', by omega, hacc, hinv, hdel.trans ?_⟩
          rw [hstep2]; exact hd'
        · have hnext : (run w (n + 1)).point = .scan ∧
              (run w (n + 1)).discardedLength = (run w n).discardedLength + 1 := by
            rw [hstep, stepScan, hk]
            simp only
            rw [if_neg hfull, if_neg hmore]
            exact ⟨rfl, rfl⟩
          obtain ⟨n', hn', hacc, hinv, hdel⟩ := ih (124 - (run w (n + 1)).discardedLength)
            (by rw [hnext.2]; omega) (n + 1) hnext.1 hi' rfl
          exact ⟨n', by omega, hacc, hinv, hdel.trans hd'⟩

/-- What the task does with a message found at an accept point that fits the
buffer: two steps on, it is complete. -/
theorem accept_fits {k : MsgKind} (hp : (run w n).point = .accept) (hi : Inv w.uart p (run w n))
    (hf : Found w.uart p k (run w n)) (hfit : totalFor (run w n).discardedLength k ≤ 128) :
    (run w (n + 2)).point = .check ∧ Inv w.uart p (run w (n + 2)) ∧
      (run w (n + 2)).message = (run w n).discardedLength ∧
      (run w (n + 2)).messageLength = k.length ∧
      (run w (n + 2)).deliveries = (run w n).deliveries := by
  have hk := k.length_pos
  have hstep : run w (n + 1) = stepAccept (run w n) := by rw [run_succ, uartProtocolTask, hp]
  have hfit' : ¬ (run w n).discardedLength + uartHeaderLength + (run w n).messageLength +
      uartChecksumLength > uartBufferLength := by
    simp only [totalFor] at hfit
    simp only [hf.length, uartHeaderLength, uartChecksumLength, uartBufferLength]
    omega
  have h1 : (run w (n + 1)).point = .body ∧
      (run w (n + 1)).message = (run w n).discardedLength ∧
      (run w (n + 1)).messageLength = k.length := by
    rw [hstep, stepAccept, if_neg (by rw [hf.length]; omega), if_neg hfit']
    exact ⟨rfl, hf.message, hf.length⟩
  have hi1 : Inv w.uart p (run w (n + 1)) := by rw [hstep]; exact inv_stepAccept hp hi
  have hstep2 : run w (n + 2) = stepBody w.uart (run w (n + 1)) := by
    rw [run_succ, uartProtocolTask, h1.1]
  have hdel : (run w (n + 2)).deliveries = (run w n).deliveries :=
    (deliveries_step _ (by rw [h1.1]; decide)).trans (deliveries_step _ (by rw [hp]; decide))
  have hi2 : Inv w.uart p (run w (n + 2)) := by rw [hstep2]; exact inv_stepBody h1.1 hi1
  have h2 : (run w (n + 2)).point = .check ∧
      (run w (n + 2)).message = (run w (n + 1)).message ∧
      (run w (n + 2)).messageLength = (run w (n + 1)).messageLength := by
    rw [hstep2, stepBody]
    split <;> exact ⟨rfl, rfl, rfl⟩
  exact ⟨h2.1, hi2, h2.2.1.trans h1.2.1, h2.2.2.trans h1.2.2, hdel⟩

/-- The callback gets the message that is on the stream. -/
theorem deliver_carries {uart : Nat → UInt8} {s : Parser} (hp : s.point = .deliver)
    (hi : Inv uart p s) : ∃ k d, FirstHeader uart p s.discardedLength k ∧
      ChecksumOk uart (p + s.discardedLength) k ∧ totalFor s.discardedLength k ≤ 128 ∧
      s.received = p + totalFor s.discardedLength k ∧
      (stepDeliver s).deliveries = s.deliveries ++ [d] ∧
      d.Carries uart (p + s.discardedLength) k := by
  simp only [Inv, hp] at hi
  obtain ⟨hr, k, hf, ha, ht, hle, hcrc, hmsg, hsum⟩ := hi
  have hk := k.length_le
  rw [hf.message] at hcrc hmsg hsum
  refine ⟨k, _, ⟨hf.scanned, hf.header, hf.low⟩, hcrc, ht ▸ hle, by rw [hr, ha, ht], rfl, ?_⟩
  refine ⟨?_, ?_, ?_, ?_, ha, ?_⟩
  · simp only [Delivery.start, hf.message]; omega
  · have hhead := congrArg (List.take 4) hmsg
    rw [segment_take _ _ (by omega), segment_take _ _ (by omega)] at hhead
    simpa only [Parser.readMessage, hf.message] using hhead
  · have hpay := congrArg (List.drop 4) hmsg
    rw [segment_drop _ _ (by omega), segment_drop _ _ (by omega), Nat.add_sub_cancel_left] at hpay
    have hfits : k.length ≤ sizeofUnion := by cases k <;> decide
    simpa only [Parser.readMessage, hf.message, segment_take _ _ hfits] using hpay
  · simp only [Parser.readMessage, hf.message, hsum, ofLE32_toLE32]
  · simp only [totalFor] at ht
    simp only; omega

/-- What a window hands over, as the deliveries of the run show it. -/
def HandsOver (uart : Nat → UInt8) (before after : List Delivery) :
    Option (Nat × MsgKind) → Prop
  | none => after = before
  | some (q, k) => ∃ d, after = before ++ [d] ∧ d.Carries uart q k

theorem stepCheck_received (now : UInt32) (s : Parser) :
    (stepCheck now s).received = s.received := by
  unfold stepCheck
  exact (apply_ite Parser.received _ _ _).trans (ite_self s.received)

/-- A message that fits is complete two steps after it was accepted; then it is
delivered, or dropped for its checksum. -/
theorem window_message {k : MsgKind} (hp : (run w n).point = .accept)
    (hi : Inv w.uart p (run w n)) (hf : Found w.uart p k (run w n))
    (hfit : totalFor (run w n).discardedLength k ≤ 128) :
    ∃ o p' n', n < n' ∧ Window w.uart p o p' ∧ (run w n').point = .restart ∧
      (run w n').received = p' ∧ HandsOver w.uart (run w n).deliveries (run w n').deliveries o := by
  have hfirst : FirstHeader w.uart p (run w n).discardedLength k := ⟨hf.scanned, hf.header, hf.low⟩
  obtain ⟨hchk, hic, hmsg, hlen, hdelc⟩ := accept_fits hp hi hf hfit
  have hstepc : run w (n + 3) = stepCheck (w.timeGetUs (n + 2)) (run w (n + 2)) := by
    rw [run_succ, uartProtocolTask, hchk]
  have hi3 : Inv w.uart p (run w (n + 3)) := by
    rw [hstepc]; exact inv_stepCheck _ hchk hic
  have hdel3 : (run w (n + 3)).deliveries = (run w n).deliveries :=
    (deliveries_step _ (by rw [hchk]; decide)).trans hdelc
  simp only [Inv, hchk] at hic
  obtain ⟨hh, k', hf', hav, htot, hle⟩ := hic
  obtain ⟨hd, rfl⟩ := hfirst.unique ⟨hf'.scanned, hf'.header, hf'.low⟩
  have hend : (run w (n + 2)).message + 8 + k.length ≤ (run w (n + 2)).availableLength := by
    simp only [totalFor] at htot
    rw [hf'.message]; omega
  have hiff := hh.checksum_iff (w.timeGetUs (n + 2)) hlen hend
  rw [hmsg] at hiff
  by_cases hcrc : ChecksumOk w.uart (p + (run w n).discardedLength) k
  · have hpd : (run w (n + 3)).point = .deliver := by
      rw [hstepc, stepCheck]
      simp only [hiff.mpr hcrc, ne_eq, not_true_eq_false, if_false]
    obtain ⟨k'', d, hf'', _, _, hr'', hd'', hcar⟩ := deliver_carries hpd hi3
    obtain ⟨hdd, rfl⟩ := hfirst.unique hf''
    rw [← hdd] at hr'' hcar
    have hstepd : run w (n + 4) = stepDeliver (run w (n + 3)) := by
      rw [run_succ, uartProtocolTask, hpd]
    refine ⟨some (_, k), _, n + 4, by omega, .message hfirst hfit hcrc, by rw [hstepd]; rfl,
      by rw [hstepd]; exact hr'', d, ?_, hcar⟩
    rw [hstepd, hd'', hdel3]
  · have hpd : (run w (n + 3)).point = .restart := by
      rw [hstepc, stepCheck]
      simp only [mt hiff.mp hcrc, ne_eq, not_false_eq_true, if_true]
    refine ⟨none, _, n + 3, by omega, .corrupt hfirst hfit hcrc, hpd, ?_, hdel3⟩
    rw [hstepc, stepCheck_received, hh.1, hav, htot, hd]

/-- The end of a window whose bytes were searched, from the accept point on. -/
theorem window_accept (hp : (run w n).point = .accept) (hi : Inv w.uart p (run w n)) :
    ∃ o p' n', n < n' ∧ Window w.uart p o p' ∧ (run w n').point = .restart ∧
      (run w n').received = p' ∧ HandsOver w.uart (run w n).deliveries (run w n').deliveries o := by
  have hia := hi
  simp only [Inv, hp] at hia
  have hstep : run w (n + 1) = stepAccept (run w n) := by rw [run_succ, uartProtocolTask, hp]
  have hdel : (run w (n + 1)).deliveries = (run w n).deliveries :=
    deliveries_step _ (by rw [hp]; decide)
  obtain ⟨⟨hrec, _⟩, ⟨hm, hs, ha⟩ | ⟨k, hf, hc⟩⟩ := hia
  · refine ⟨none, p + 128, n + 1, by omega, .skip hs, ?_, ?_, hdel⟩
    · rw [hstep, stepAccept, if_pos hm]
    · rw [hstep, stepAccept, if_pos hm, ← ha]; exact hrec
  have hfirst : FirstHeader w.uart p (run w n).discardedLength k := ⟨hf.scanned, hf.header, hf.low⟩
  by_cases hfit : totalFor (run w n).discardedLength k ≤ 128
  · exact window_message hp hi hf hfit
  · have hlong : 128 < totalFor (run w n).discardedLength k := by omega
    have hlong' : (run w n).discardedLength + uartHeaderLength + (run w n).messageLength +
        uartChecksumLength > uartBufferLength := by
      simp only [totalFor] at hlong
      simp only [hf.length, uartHeaderLength, uartChecksumLength, uartBufferLength]
      omega
    have hk := k.length_pos
    refine ⟨none, _, n + 1, by omega, .tooLong hfirst hlong, ?_, ?_, hdel⟩
    · rw [hstep, stepAccept, if_neg (by rw [hf.length]; omega), if_pos hlong']
    · rw [hstep, stepAccept, if_neg (by rw [hf.length]; omega), if_pos hlong']
      exact hrec.trans (by rw [hc.eq])

/-- **The task realises the windows.** From any restart the next restart comes at
the end of a window, with what that window hands over added to the deliveries. -/
theorem window_run (hp : (run w n).point = .restart) :
    ∃ o p' n', n < n' ∧ Window w.uart (run w n).received o p' ∧ (run w n').point = .restart ∧
      (run w n').received = p' ∧ HandsOver w.uart (run w n).deliveries (run w n').deliveries o := by
  have hstep : run w (n + 1) = stepRestart w.uart (run w n) := by
    rw [run_succ, uartProtocolTask, hp]
  obtain ⟨a, hna, hacc, hi, hdel⟩ := scan_ends (w := w) (p := (run w n).received) _ (n + 1)
    (by rw [hstep]; rfl) (by rw [hstep]; exact inv_stepRestart _ _) rfl
  have hdel : (run w a).deliveries = (run w n).deliveries := by rw [hdel, hstep]; rfl
  obtain ⟨o, p', n', hn', hwin, hrestart, hrec, hover⟩ := window_accept hacc hi
  rw [hdel] at hover
  exact ⟨o, p', n', by omega, hwin, hrestart, hrec, hover⟩

end AiDeck.Uart
