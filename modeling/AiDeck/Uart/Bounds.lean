import AiDeck.Uart.Windows

/-! # Where the parser touches its buffer

The reads and the comparisons stay inside the 128 bytes at every resync offset.
The stores of the checksum and of the reception time go to the end of the
largest message, whatever was received, while the guard of the task is about the
message received: `accesses_inBounds_iff` says which runs stay inside. -/
namespace AiDeck.Uart
open AiDeck.Lib.Bytes

/-- Inside the buffer; a UART read continues the bytes received and a header
comparison reads only such bytes. -/
structure Access.InBounds (a : Access) : Prop where
  inside : a.offset + a.length ≤ uartBufferLength
  appends : a.kind = .uartRead → a.offset = a.available
  known : a.kind = .compare → a.offset + a.length ≤ a.available

/-- The accesses of the step that starts in `s`. -/
def stepAccesses (s : Parser) : List Access :=
  match s.point with
  | .restart => [⟨.uartRead, 0, uartReadSize, 0⟩]
  | .scan => [⟨.compare, s.discardedLength, uartHeaderLength, s.availableLength⟩]
  | .refill => [⟨.uartRead, s.availableLength, uartReadSize, s.availableLength⟩]
  | .body =>
    if (s.totalLength : Int) - s.availableLength > 0 then
      [⟨.uartRead, s.availableLength, ((s.totalLength : Int) - s.availableLength).toNat,
        s.availableLength⟩]
    else []
  | .check =>
    [⟨.load, s.message + uartHeaderLength + s.messageLength, uartChecksumLength, s.availableLength⟩,
      ⟨.store, s.message + offsetofChecksum, 4, s.availableLength⟩,
      ⟨.store, s.message + offsetofRecvTimestamp, 4, s.availableLength⟩,
      ⟨.load, s.message, uartHeaderLength + s.messageLength, s.availableLength⟩,
      ⟨.load, s.message + offsetofChecksum, 4, s.availableLength⟩]
  | .accept | .deliver => []

theorem accesses_step (uart : Nat → UInt8) (now : UInt32) (s : Parser) :
    (uartProtocolTask uart now s).accesses = s.accesses ++ stepAccesses s := by
  unfold uartProtocolTask stepAccesses
  cases s.point with
  | restart => rfl
  | scan =>
    simp only [stepScan]
    cases matchHeader s.buffer s.discardedLength with
    | some k => rfl
    | none =>
      simp only
      split
      · rfl
      · split <;> rfl
  | refill => rfl
  | accept =>
    simp only [stepAccept, List.append_nil]
    split
    · rfl
    · split <;> rfl
  | body => simp only [stepBody]; split <;> simp [Parser.uartRead, Parser.access]
  | check => simp only [stepCheck]; split <;> simp [Parser.complete, Parser.store, Parser.access]
  | deliver => simp [stepDeliver]

/-- A header found at a scan point belongs to a message that fits the buffer only
where the whole `uart_msg_t` fits it. -/
def HeadersEarly (s : Parser) : Prop :=
  s.point = .scan → ∀ k, matchHeader s.buffer s.discardedLength = some k →
    s.discardedLength + uartHeaderLength + k.length + uartChecksumLength ≤ uartBufferLength →
    s.discardedLength + sizeofUartMsg ≤ uartBufferLength

/-- `HeadersEarly` as the points after the scan remember it. -/
def AcceptedEarly (s : Parser) : Prop :=
  s.point = .accept ∨ s.point = .body ∨ s.point = .check → s.messageLength ≠ 0 →
    s.discardedLength + 8 + s.messageLength ≤ 128 → s.discardedLength + 80 ≤ 128

theorem acceptedEarly_step {uart : Nat → UInt8} {p : Nat} {s : Parser} (now : UInt32)
    (hi : Inv uart p s) (he : HeadersEarly s) (ha : AcceptedEarly s) :
    AcceptedEarly (uartProtocolTask uart now s) := by
  unfold uartProtocolTask
  cases hp : s.point with
  | restart => intro hq; simp [stepRestart] at hq
  | scan =>
    simp only [Inv, hp] at hi
    simp only [stepScan]
    cases hk : matchHeader s.buffer s.discardedLength with
    | some k =>
      intro _ _ hfit
      have hfit' : s.discardedLength + 4 + k.length + 4 ≤ 128 := by
        change s.discardedLength + 8 + k.length ≤ 128 at hfit
        omega
      exact he hp k hk hfit'
    | none =>
      have hm : s.messageLength = 0 := hi.2.2.1
      intro _ hne
      simp only at hne
      split at hne
      · exact absurd hm hne
      · split at hne <;> exact absurd hm hne
  | refill => intro hq; simp at hq
  | accept =>
    simp only [stepAccept]
    split
    · intro hq; simp at hq
    · split
      · intro hq; simp at hq
      · exact fun _ => ha (.inl hp)
  | body =>
    simp only [stepBody]
    split <;> exact fun _ => ha (.inr (.inl hp))
  | check =>
    simp only [stepCheck]
    split <;> intro hq <;> simp at hq
  | deliver => intro hq; simp [stepDeliver] at hq

/-- The stores of one step are the only accesses that need the condition. -/
theorem stepAccesses_inBounds {uart : Nat → UInt8} {p : Nat} {s : Parser} (hi : Inv uart p s)
    (ha : AcceptedEarly s) : ∀ a ∈ stepAccesses s, a.InBounds := by
  have hc : offsetofChecksum = 72 := rfl
  have ht : offsetofRecvTimestamp = 76 := rfl
  intro a hm
  unfold stepAccesses at hm
  cases hp : s.point with
  | restart =>
    simp only [hp, List.mem_singleton] at hm
    subst hm
    exact ⟨by decide, fun _ => rfl, fun h => by cases h⟩
  | scan =>
    simp only [hp, List.mem_singleton] at hm
    simp only [Inv, hp] at hi
    subst hm
    exact ⟨hi.2.2.2.2, fun h => by (cases h), fun _ => hi.2.2.2.1.1⟩
  | refill =>
    simp only [hp, List.mem_singleton] at hm
    simp only [Inv, hp] at hi
    subst hm
    refine ⟨?_, fun _ => rfl, fun h => by cases h⟩
    simp only [uartReadSize, uartBufferLength]; omega
  | accept => simp [hp] at hm
  | body =>
    simp only [hp] at hm
    simp only [Inv, hp] at hi
    obtain ⟨-, k, -, -, -, hle⟩ := hi
    split at hm
    · rw [List.mem_singleton.mp hm]
      refine ⟨?_, fun _ => rfl, fun h => by cases h⟩
      simp only [uartBufferLength]; omega
    · cases hm
  | check =>
    simp only [hp] at hm
    simp only [Inv, hp] at hi
    obtain ⟨-, k, hf, -, htot, hle⟩ := hi
    have hk := k.length_le
    have hm' := hf.message
    have hl := hf.length
    simp only [totalFor] at htot
    have hd : s.discardedLength + 80 ≤ 128 := ha (.inr (.inr hp)) (by omega) (by omega)
    simp only [List.mem_cons, List.not_mem_nil, or_false] at hm
    rcases hm with rfl | rfl | rfl | rfl | rfl <;>
      refine ⟨?_, fun h => by (cases h), fun h => by cases h⟩ <;>
      simp only [uartHeaderLength, uartChecksumLength, uartBufferLength] <;> omega
  | deliver => simp [hp] at hm

/-- **Where a run stays inside the buffer.** All accesses of a run are in bounds
exactly when every header it finds early enough for its own message is found
early enough for the largest one (offset 48 at most). -/
theorem accesses_inBounds_iff (w : World) :
    (∀ n, ∀ a ∈ (run w n).accesses, a.InBounds) ↔ ∀ n, HeadersEarly (run w n) := by
  constructor
  · intro h n hp k hk hfit
    -- the header is accepted, the rest is read, and the stores come three steps later
    obtain ⟨p, hi⟩ := run_inv w n
    have hstep : run w (n + 1) = stepScan (run w n) := by rw [run_succ, uartProtocolTask, hp]
    have hi1 : Inv w.uart p (run w (n + 1)) := by rw [hstep]; exact inv_stepScan hp hi
    have h1 : (run w (n + 1)).point = .accept ∧
        (run w (n + 1)).discardedLength = (run w n).discardedLength ∧
        (run w (n + 1)).message = (run w n).discardedLength ∧
        (run w (n + 1)).messageLength = k.length := by
      rw [hstep, stepScan, hk]; exact ⟨rfl, rfl, rfl, rfl⟩
    simp only [Inv, hp] at hi
    obtain ⟨hh, hs, -, hc, hlow⟩ := hi
    have hf : Found w.uart p k (run w (n + 1)) := by
      refine ⟨?_, ?_, ?_, h1.2.2.1.trans h1.2.1.symm, h1.2.2.2⟩
      · rw [h1.2.1]; exact hs
      · rw [h1.2.1, ← hh.matchHeader hc.1]; exact hk
      · rw [h1.2.1]; exact hlow
    have hfit' : totalFor (run w (n + 1)).discardedLength k ≤ 128 := by
      simp only [uartHeaderLength, uartChecksumLength, uartBufferLength] at hfit
      rw [h1.2.1, totalFor]; omega
    obtain ⟨hchk, -, hmsg, -, -⟩ := accept_fits h1.1 hi1 hf hfit'
    have hstore : (⟨.store, (run w (n + 3)).message + offsetofRecvTimestamp, 4,
        (run w (n + 3)).availableLength⟩ : Access) ∈ (run w (n + 4)).accesses := by
      rw [run_succ, accesses_step]
      apply List.mem_append_right
      simp [stepAccesses, hchk]
    have hin := (h (n + 4) _ hstore).inside
    rw [hmsg, h1.2.1] at hin
    exact hin
  · intro he n
    have hboth : AcceptedEarly (run w n) ∧ ∀ a ∈ (run w n).accesses, a.InBounds := by
      induction n with
      | zero => exact ⟨fun hq => by simp [run, Parser.init] at hq, fun a hm => by cases hm⟩
      | succ n ih =>
        obtain ⟨ha, hb⟩ := ih
        obtain ⟨p, hi⟩ := run_inv w n
        refine ⟨acceptedEarly_step _ hi (he n) ha, ?_⟩
        intro a hm
        rw [run, accesses_step] at hm
        rcases List.mem_append.mp hm with hm | hm
        · exact hb a hm
        · exact stepAccesses_inBounds hi ha a hm
    exact hboth.2

/-- A stream with a random-number message behind 49 bytes of noise. -/
def lateHeader : World where
  memory := fun _ => 0
  uart := feed (List.replicate 49 0 ++ MsgKind.rng.header) fun _ => 0
  timeGetUs := fun _ => 0

/-- The reception time of that message is stored past the end of the buffer. -/
theorem lateHeader_overruns : ¬ ∀ w n, ∀ a ∈ (run w n).accesses, a.InBounds := by
  intro h
  have hall : (run lateHeader 67).accesses.all
      (fun a => decide (a.offset + a.length ≤ uartBufferLength)) = true := by
    rw [List.all_eq_true]
    intro a ha
    exact decide_eq_true (h lateHeader 67 a ha).inside
  have hover : (run lateHeader 67).accesses.all
      (fun a => decide (a.offset + a.length ≤ uartBufferLength)) = false := by decide +kernel
  rw [hall] at hover
  cases hover

end AiDeck.Uart
