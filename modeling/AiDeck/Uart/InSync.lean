import AiDeck.Uart.Soundness

/-! # Messages back to back

`wire` lays valid messages on the stream. A window that finds the header of such
a message hands that message over and the next window starts where the message
ends, so that a parser once in step stays in step, whatever the payloads hold. -/
namespace AiDeck.Uart
open AiDeck.Lib.Bytes AiDeck.Crc32

/-- A message of one of the three kinds with a payload of its length. -/
structure Message where
  kind : MsgKind
  payload : List UInt8
  payload_length : payload.length = kind.length

/-- header ++ payload ++ checksum. -/
def Message.bytes (m : Message) : List UInt8 :=
  m.kind.header ++ m.payload ++ toLE32 (crc32 (m.kind.header ++ m.payload))

def Message.size (m : Message) : Nat := 8 + m.kind.length

def wire (msgs : List Message) : List UInt8 := msgs.flatMap Message.bytes

/-- Where message `i` starts on the wire. -/
def offsetOf (msgs : List Message) (i : Nat) : Nat := (wire (msgs.take i)).length

/-- The callback gets the header, the payload and the checksum of `m`. -/
structure Delivery.Is (d : Delivery) (m : Message) : Prop where
  header : d.message.header = m.kind.header
  payload : d.message.body.take m.kind.length = m.payload
  checksum : d.message.checksum = crc32 (m.kind.header ++ m.payload)

@[simp] theorem Message.bytes_length (m : Message) : m.bytes.length = m.size := by
  simp only [bytes, size, List.length_append, m.payload_length, m.kind.header_length,
    toLE32_length]
  omega

@[simp] theorem wire_nil : wire [] = [] := rfl

@[simp] theorem wire_cons (m : Message) (msgs : List Message) :
    wire (m :: msgs) = m.bytes ++ wire msgs := rfl

theorem wire_append (a b : List Message) : wire (a ++ b) = wire a ++ wire b :=
  List.flatMap_append

/-- The message `m` stands on the stream at `q`. -/
def MessageAt (uart : Nat → UInt8) (q : Nat) (m : Message) : Prop :=
  segment uart q m.size = m.bytes

/-- A stretch of the stream that is `a ++ b` is `a`, then `b`. -/
theorem segment_eq_append {uart : Nat → UInt8} {q : Nat} {a b : List UInt8}
    (h : segment uart q (a ++ b).length = a ++ b) :
    segment uart q a.length = a ∧ segment uart (q + a.length) b.length = b := by
  rw [List.length_append, segment_add] at h
  exact List.append_inj h (by simp)

section MessageAt
variable {uart : Nat → UInt8} {q : Nat} {m : Message}

theorem MessageAt.header (h : MessageAt uart q m) : matchHeader uart q = some m.kind := by
  rw [matchHeader_eq_some, ← segment_take uart q (show 4 ≤ m.size by unfold Message.size; omega), h,
    Message.bytes, List.append_assoc, List.take_left' m.kind.header_length]

theorem MessageAt.content (h : MessageAt uart q m) :
    segment uart q (4 + m.kind.length) = m.kind.header ++ m.payload := by
  rw [← segment_take uart q (show 4 + m.kind.length ≤ m.size by unfold Message.size; omega), h,
    Message.bytes]
  exact List.take_left' (by simp [m.payload_length, m.kind.header_length])

theorem MessageAt.sum (h : MessageAt uart q m) :
    segment uart (q + (4 + m.kind.length)) 4 = toLE32 (crc32 (m.kind.header ++ m.payload)) := by
  have hs : m.size - (4 + m.kind.length) = 4 := by unfold Message.size; omega
  have hd := segment_drop uart q (show 4 + m.kind.length ≤ m.size by unfold Message.size; omega)
  rw [hs, h, Message.bytes] at hd
  rw [← hd]
  exact List.drop_left' (by simp [m.payload_length, m.kind.header_length])

theorem MessageAt.checksumOk (h : MessageAt uart q m) : ChecksumOk uart q m.kind := by
  rw [ChecksumOk, h.content, h.sum, ofLE32_toLE32]

theorem Delivery.Carries.is {d : Delivery} {k : MsgKind} (hc : d.Carries uart q k)
    (h : MessageAt uart q m) (hk : k = m.kind) : d.Is m := by
  subst hk
  obtain ⟨hhead, hpay⟩ := List.append_inj
    ((segment_add uart q 4 m.kind.length).symm.trans h.content) (by simp [m.kind.header_length])
  exact ⟨hc.header.trans hhead, hc.payload.trans hpay, by rw [hc.checksum, h.sum, ofLE32_toLE32]⟩

/-- A window whose first header is that of a valid message hands it over if the
message fits the buffer. -/
theorem MessageAt.window {p d : Nat} (h : MessageAt uart (p + d) m) (hs : Scanned uart p d)
    (hd : d + m.size ≤ 128) : Window uart p (some (p + d, m.kind)) (p + d + m.size) := by
  have hfit : totalFor d m.kind = d + m.size := by unfold totalFor Message.size; omega
  have hlow : d + 4 ≤ 128 := by unfold Message.size at hd; omega
  have hw := Window.message (p := p) ⟨hs, h.header, hlow⟩ (by omega) h.checksumOk
  rwa [hfit, ← Nat.add_assoc] at hw

end MessageAt

/-! ## The positions a run restarts at -/

/-- The run comes to a restart with exactly `p` bytes consumed. -/
def Visits (w : World) (p : Nat) : Prop := ∃ n, (run w n).point = .restart ∧ (run w n).received = p

theorem visits_zero (w : World) : Visits w 0 := ⟨0, rfl, rfl⟩

variable {w : World}

/-- From a restart on, the window hands over what it finds and the next restart
is at its end. -/
theorem restart_window {n p p' : Nat} {o : Option (Nat × MsgKind)}
    (hp : (run w n).point = .restart) (hr : (run w n).received = p) (hw : Window w.uart p o p') :
    ∃ n' > n, (run w n').point = .restart ∧ (run w n').received = p' ∧
      HandsOver w.uart (run w n).deliveries (run w n').deliveries o := by
  obtain ⟨o', q', n', hlt, hw', hp', hr', hd⟩ := window_run hp
  rw [hr] at hw'
  obtain ⟨rfl, rfl⟩ := hw.unique hw'
  exact ⟨n', hlt, hp', hr', hd⟩

/-- Every window moves on. -/
theorem Window.lt {uart : Nat → UInt8} {p p' : Nat} {o : Option (Nat × MsgKind)}
    (h : Window uart p o p') : p < p' := by
  cases h with
  | skip => omega
  | tooLong => unfold readUpTo; omega
  | corrupt | message => unfold totalFor; omega

theorem received_unbounded (w : World) (N : Nat) :
    ∃ n, (run w n).point = .restart ∧ N ≤ (run w n).received := by
  induction N with
  | zero => exact ⟨0, rfl, Nat.zero_le _⟩
  | succ N ih =>
    obtain ⟨n, hp, hN⟩ := ih
    obtain ⟨o, p', n', -, hw, hp', hr', -⟩ := window_run hp
    have := hw.lt
    exact ⟨n', hp', by omega⟩

/-- The first `N` bytes of the stream carry the run to step `n` and no further:
its next step waits for a byte behind them. -/
def StopsAfter (w : World) (N n : Nat) : Prop :=
  (run w n).received ≤ N ∧ N < (run w (n + 1)).received

theorem stops_exists (w : World) (N : Nat) : ∃ n, StopsAfter w N n := by
  obtain ⟨b, -, hb⟩ := received_unbounded w (N + 1)
  induction b with
  | zero => simp [run, Parser.init] at hb
  | succ b ih =>
    by_cases hlt : N + 1 ≤ (run w b).received
    · exact ih hlt
    · exact ⟨b, by omega, hb⟩

/-- A restart at the end of the first `N` bytes is where the run stops. -/
theorem stops_at_restart {n N : Nat} (hp : (run w n).point = .restart)
    (hr : (run w n).received = N) : StopsAfter w N n := by
  have hs : run w (n + 1) = stepRestart w.uart (run w n) := by rw [run_succ, uartProtocolTask, hp]
  have h4 : (run w (n + 1)).received = (run w n).received + 4 := by rw [hs]; rfl
  exact ⟨by omega, by omega⟩

/-- In step at the first of some messages, the parser hands over each of them. -/
theorem sync_run (msgs : List Message) :
    ∀ n q, (run w n).point = .restart → (run w n).received = q →
      segment w.uart q (wire msgs).length = wire msgs →
      ∃ n' ds, (run w n').point = .restart ∧ (run w n').received = q + (wire msgs).length ∧
        (run w n').deliveries = (run w n).deliveries ++ ds ∧ List.Forall₂ Delivery.Is ds msgs := by
  induction msgs with
  | nil => intro n q hp hr _; exact ⟨n, [], hp, hr, by simp, .nil⟩
  | cons m msgs ih =>
    intro n q hp hr hs
    rw [wire_cons] at hs
    obtain ⟨hm, hrest⟩ := segment_eq_append hs
    rw [m.bytes_length] at hm hrest
    have hm : MessageAt w.uart (q + 0) m := hm
    have hw := hm.window (p := q) (d := 0) (fun i hi => absurd hi (Nat.not_lt_zero i)) (by
      have := m.kind.length_le; unfold Message.size; omega)
    obtain ⟨n', -, hp', hr', d, hd, hc⟩ := restart_window hp hr hw
    obtain ⟨n'', ds, hp'', hr'', hds, hall⟩ := ih n' _ hp' hr' hrest
    refine ⟨n'', d :: ds, hp'', ?_, ?_, .cons (hc.is hm rfl) hall⟩
    · rw [hr'', wire_cons, List.length_append, m.bytes_length, Nat.add_zero, Nat.add_assoc]
    · rw [hds, hd]; simp

/-- **Completeness in step.** Behind at most 48 bytes of noise in which no header
starts, the messages are handed over once each and in order, and the bytes up to
the end of the last one are enough for that. -/
theorem messages_delivered (w : World) (noise : List UInt8) (msgs : List Message)
    (hk : noise.length ≤ 48)
    (hs : segment w.uart 0 (noise ++ wire msgs).length = noise ++ wire msgs)
    (hn : ∀ p < noise.length, p + 4 ≤ (noise ++ wire msgs).length → matchHeader w.uart p = none) :
    ∃ n, StopsAfter w (noise ++ wire msgs).length n ∧
      List.Forall₂ Delivery.Is (run w n).deliveries msgs := by
  cases msgs with
  | nil =>
    obtain ⟨n, hstop⟩ := stops_exists w (noise ++ wire []).length
    refine ⟨n, hstop, ?_⟩
    -- a delivery would start in the noise
    have hnone : (run w n).deliveries = [] := by
      apply List.eq_nil_iff_forall_not_mem.mpr
      intro d hd
      obtain ⟨p, hi, hpast⟩ := run_delivered w n
      obtain ⟨k, hseg⟩ := hpast.segments d hd
      have hrec : d.received ≤ (run w n).received := Nat.le_trans (hpast.past d hd) hi.windowOf_le
      have hfits : d.start + 4 ≤ (noise ++ wire []).length := by
        have := hseg.consumed
        have := hstop.1
        omega
      have hin : d.start < noise.length := by simp at hfits; omega
      have hk := matchHeader_eq_some.mpr hseg.header
      rw [hn d.start hin hfits] at hk
      cases hk
    rw [hnone]; exact .nil
  | cons m msgs =>
    obtain ⟨_, hm⟩ := segment_eq_append hs
    rw [wire_cons] at hm
    obtain ⟨hm, hrest⟩ := segment_eq_append hm
    rw [m.bytes_length] at hm hrest
    have hm : MessageAt w.uart (0 + noise.length) m := hm
    have hlen : (noise ++ wire (m :: msgs)).length =
        noise.length + m.size + (wire msgs).length := by
      rw [List.length_append, wire_cons, List.length_append, m.bytes_length, Nat.add_assoc]
    have hkl := m.kind.length_le
    have hscan : Scanned w.uart 0 noise.length := by
      intro i hi
      rw [Nat.zero_add]
      exact hn i hi (by rw [hlen]; unfold Message.size; omega)
    have hw := hm.window hscan (by unfold Message.size; omega)
    obtain ⟨n', -, hp', hr', d, hd, hc⟩ := restart_window (n := 0) rfl rfl hw
    obtain ⟨n'', ds, hp'', hr'', hds, hall⟩ := sync_run msgs n' _ hp' hr' hrest
    refine ⟨n'', stops_at_restart hp'' ?_, ?_⟩
    · rw [hr'', hlen, Nat.zero_add]
    · rw [hds, hd]
      exact .cons (hc.is hm rfl) hall

/-- A time-of-flight message behind a header of another kind in its payload, then
a random-number message, behind three bytes of noise. -/
def inStepMessages : List Message :=
  [⟨.tof, MsgKind.state.header ++ List.replicate 64 7, rfl⟩, ⟨.rng, [1, 2, 3, 4], rfl⟩]

def inStep : World where
  memory := fun _ => 0
  uart := feed ([0x21, 0x53, 0x54] ++ wire inStepMessages) fun _ => 0
  timeGetUs := fun _ => 0

theorem messages_delivered_inStep :
    ∃ n, StopsAfter inStep ([0x21, 0x53, 0x54] ++ wire inStepMessages).length n ∧
      List.Forall₂ Delivery.Is (run inStep n).deliveries inStepMessages :=
  messages_delivered inStep [0x21, 0x53, 0x54] inStepMessages (by decide)
    (segment_feed ([0x21, 0x53, 0x54] ++ wire inStepMessages) fun _ => 0) (by
      intro p hp _
      have hp : p < 3 := hp
      interval_cases p <;> decide +kernel)

end AiDeck.Uart
