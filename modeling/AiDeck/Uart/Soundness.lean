import AiDeck.Uart.Windows

/-! # What the callback is given

Every message handed over is a segment of the stream with the right header,
length and checksum, the segments follow one another without overlap, and the
task has then consumed the stream exactly up to the end of the segment. -/
namespace AiDeck.Uart
open AiDeck.Lib.Bytes AiDeck.Crc32

/-- The delivery is the segment header ++ payload ++ checksum of the stream at
`d.start`, a message of kind `k` that ends where the task stands. -/
structure Delivery.IsSegment (uart : Nat → UInt8) (d : Delivery) (k : MsgKind) : Prop where
  header : segment uart d.start 4 = k.header
  headerSeen : d.message.header = k.header
  payloadSeen : d.message.body.take k.length = segment uart (d.start + 4) k.length
  checksum : ofLE32 (segment uart (d.start + (4 + k.length)) 4) =
    crc32 (segment uart d.start 4 ++ segment uart (d.start + 4) k.length)
  checksumSeen : d.message.checksum = ofLE32 (segment uart (d.start + (4 + k.length)) 4)
  consumed : d.received = d.start + (8 + k.length)
  exact : d.availableLength = d.totalLength

theorem Delivery.Carries.isSegment {uart : Nat → UInt8} {d : Delivery} {q : Nat} {k : MsgKind}
    (h : d.Carries uart q k) (hk : matchHeader uart q = some k) (hc : ChecksumOk uart q k) :
    d.IsSegment uart k := by
  obtain ⟨rfl, hhead, hpay, hsum, htot, hcons⟩ := h
  have hheader := matchHeader_eq_some.mp hk
  refine ⟨hheader, hhead.trans hheader, hpay, ?_, hsum, hcons, htot⟩
  rw [← segment_add]
  exact hc.symm

/-- What holds of the deliveries of a run that stands in the window at `p`. -/
structure Delivered (uart : Nat → UInt8) (p : Nat) (s : Parser) : Prop where
  segments : ∀ d ∈ s.deliveries, ∃ k, d.IsSegment uart k
  ordered : s.deliveries.Pairwise fun a b => a.received ≤ b.start
  past : ∀ d ∈ s.deliveries, d.received ≤ windowOf p s

/-- Steps that hand nothing over keep the deliveries behind the window. -/
theorem Delivered.keep {uart : Nat → UInt8} {p : Nat} {s t : Parser} (h : Delivered uart p s)
    (hd : t.deliveries = s.deliveries) (hi : Inv uart (windowOf p s) t) :
    Delivered uart (windowOf p s) t := by
  refine ⟨?_, ?_, ?_⟩
  · rw [hd]; exact h.segments
  · rw [hd]; exact h.ordered
  · intro d hm
    rw [hd] at hm
    exact Nat.le_trans (h.past d hm) hi.le_windowOf

theorem Delivered.deliver {uart : Nat → UInt8} {p : Nat} {s : Parser} (h : Delivered uart p s)
    (hp : s.point = .deliver) (hi : Inv uart p s) : Delivered uart p (stepDeliver s) := by
  obtain ⟨k, d, hf, hc, -, hr, hdel, hcar⟩ := deliver_carries hp hi
  have hseg := hcar.isSegment hf.header hc
  have hpast : ∀ e ∈ s.deliveries, e.received ≤ p := by
    intro e he
    simpa [windowOf, hp] using h.past e he
  have hnow : windowOf p (stepDeliver s) = s.received := rfl
  refine ⟨?_, ?_, ?_⟩
  · intro e he
    rw [hdel] at he
    rcases List.mem_append.mp he with he | he
    · exact h.segments e he
    · rw [List.mem_singleton.mp he]; exact ⟨k, hseg⟩
  · rw [hdel]
    refine List.pairwise_append.mpr ⟨h.ordered, List.pairwise_singleton _ _, ?_⟩
    intro a ha b hb
    rw [List.mem_singleton.mp hb, hcar.start]
    have := hpast a ha
    omega
  · intro e he
    rw [hdel] at he
    rw [hnow]
    rcases List.mem_append.mp he with he | he
    · have := hpast e he; omega
    · rw [List.mem_singleton.mp he, hcar.consumed, hr]
      simp only [totalFor]; omega

theorem run_delivered (w : World) (n : Nat) :
    ∃ p, Inv w.uart p (run w n) ∧ Delivered w.uart p (run w n) := by
  induction n with
  | zero =>
    refine ⟨0, rfl, ?_, List.Pairwise.nil, ?_⟩
    · intro d hd; cases hd
    · intro d hd; cases hd
  | succ n ih =>
    obtain ⟨p, hi, hd⟩ := ih
    have hi' := inv_step (w.timeGetUs n) hi
    refine ⟨windowOf p (run w n), hi', ?_⟩
    by_cases hp : (run w n).point = .deliver
    · have hw : windowOf p (run w n) = p := by simp [windowOf, hp]
      rw [hw, run_succ, uartProtocolTask, hp]
      exact hd.deliver hp hi
    · exact hd.keep (deliveries_step _ hp) hi'

/-- **Soundness of the parser.** -/
theorem deliveries_sound (w : World) (n : Nat) :
    (∀ d ∈ (run w n).deliveries, ∃ k, d.IsSegment w.uart k) ∧
      (run w n).deliveries.Pairwise fun a b => a.received ≤ b.start := by
  obtain ⟨p, -, hd⟩ := run_delivered w n
  exact ⟨hd.segments, hd.ordered⟩

end AiDeck.Uart
