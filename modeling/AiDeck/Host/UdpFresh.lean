import AiDeck.Host.UdpTransport

/-! # Losses over UDP

The datagrams of one connection arrive in the order in which they were sent, with losses
between them: which of them `receive` yields. -/
namespace AiDeck.Host
open AiDeck.Lib AiDeck.Lib.Bytes AiDeck.Cpx

/-- A datagram with a complete header. -/
abbrev HeaderComplete (message : List UInt8) : Prop := sizeofUdpHeader ≤ message.length

/-- A datagram that `receive` need not refuse or cut. -/
def WellFormed (message : List UInt8) : Prop :=
  HeaderComplete message ∧ message.length ≤ sizeofUdpHeader + cpxUdpMtu

/-- The datagrams with a header carry the counter of the sender. -/
def Numbered (messages : Nat → List UInt8) : Prop :=
  ∀ n, HeaderComplete (messages n) →
    (UdpHeader.fromBufferCopy (messages n)).sequence.toNat = nextTxSeq n

/-- The packet in what `recv` returns of a datagram. -/
def packetOf (message : List UInt8) : CpxPacket :=
  ⟨(UdpHeader.fromBufferCopy message).cpx,
    (message.take cpxUdpMaxFrameLength).drop sizeofUdpHeader⟩

/-- The datagrams with a header among those that arrive. -/
def headed (messages : Nat → List UInt8) (arrivals : List Nat) : List Nat :=
  arrivals.filter fun n => HeaderComplete (messages n)

/-- Datagram `n` arrives. -/
def UdpRun.arriveMessage (messages : Nat → List UInt8) (s : UdpRun) (n : Nat) : UdpRun :=
  let receiver := s.receiver.receive (messages n)
  ⟨receiver,
    if receiver.yields.length = s.receiver.yields.length then s.delivered else s.delivered ++ [n]⟩

/-- The datagrams of a connection in the order in which they arrive. -/
def udpMessages (messages : Nat → List UInt8) (arrivals : List Nat) : UdpRun :=
  arrivals.foldl (UdpRun.arriveMessage messages) ⟨.connected, []⟩

/-- Datagram `n` is not behind a wrap of the counter that `receive` cannot see: no packet is
expected, or the counter does not wrap between the expected one and `n`. -/
def FreshExpected (s : UdpRun) (n : Nat) : Prop :=
  ∀ y, s.delivered.getLast? = some y → s.receiver.nextRxSeq = -1 ∨ n / 65536 = (y + 1) / 65536

theorem datagram_numbered (packets : Nat → CpxPacket) : Numbered (datagram packets) := by
  intro n _
  rw [datagram, UdpHeader.fromBufferCopy_toBytes, UInt16.toNat_ofNat', nextTxSeq_eq, Nat.mod_mod]

theorem udpRun_eq_udpMessages (packets : Nat → CpxPacket) (arrivals : List Nat) :
    udpRun packets arrivals = udpMessages (datagram packets) arrivals := rfl

/-! ## One datagram -/

section
variable {message : List UInt8}

/-- The header lies in the bytes that `recv` does not cut off. -/
theorem fromBufferCopy_take (message : List UInt8) :
    UdpHeader.fromBufferCopy (message.take cpxUdpMaxFrameLength) =
      UdpHeader.fromBufferCopy message := by
  have hbyte : ∀ i < sizeofUdpHeader,
      (message.take cpxUdpMaxFrameLength).getD i 0 = message.getD i 0 := by
    intro i hi
    have hlt : i < cpxUdpMaxFrameLength := Nat.lt_trans hi (by decide)
    rw [List.getD_eq_getElem?_getD, List.getD_eq_getElem?_getD, List.getElem?_take_of_lt hlt]
  have hdrop : ∀ (l : List UInt8) i, (l.drop 2).getD i 0 = l.getD (2 + i) 0 := by
    intro l i
    rw [List.getD_eq_getElem?_getD, List.getD_eq_getElem?_getD, List.getElem?_drop]
  simp only [UdpHeader.fromBufferCopy, ofLE16, CpxHeader.ofBytes, hdrop, hbyte 0 (by decide),
    hbyte 1 (by decide), hbyte (2 + 0) (by decide), hbyte (2 + 1) (by decide)]

theorem UdpReceiver.receive_short (r : UdpReceiver) (h : ¬ HeaderComplete message) :
    r.receive message = r := by
  have hshort : (message.take cpxUdpMaxFrameLength).length < sizeofUdpHeader :=
    Nat.lt_of_le_of_lt (List.length_take_le' _ _) (Nat.lt_of_not_le h)
  simp only [receive, if_pos hshort]

theorem UdpReceiver.receive_complete (r : UdpReceiver) (h : HeaderComplete message) :
    r.receive message =
      if ((UdpHeader.fromBufferCopy message).sequence.toNat : Int) < r.nextRxSeq then
        { r with nextRxSeq := -1 }
      else
        ⟨((UdpHeader.fromBufferCopy message).sequence.toNat + 1) % 65536,
          r.yields ++ [packetOf message]⟩ := by
  have hcomplete : ¬ (message.take cpxUdpMaxFrameLength).length < sizeofUdpHeader := by
    rw [List.length_take]
    have hheader : sizeofUdpHeader ≤ cpxUdpMaxFrameLength := by decide
    exact Nat.not_lt.mpr (Nat.le_min.mpr ⟨hheader, h⟩)
  have hfits : ¬ ((message.take cpxUdpMaxFrameLength).drop sizeofUdpHeader).length >
      cpxUdpMtu := by
    rw [List.length_drop]
    exact Nat.not_lt.mpr (Nat.sub_le_sub_right (List.length_take_le _ _) _)
  simp only [receive, if_neg hcomplete, if_neg hfits, fromBufferCopy_take, List.take_length]
  rfl

end

/-! ## The datagrams of a connection -/

section
variable {messages : Nat → List UInt8} {arrivals : List Nat} {s : UdpRun} {n : Nat}

theorem headed_concat (h : HeaderComplete (messages n)) :
    headed messages (arrivals ++ [n]) = headed messages arrivals ++ [n] := by
  rw [headed, List.filter_append, List.filter_cons_of_pos (by simpa using h)]
  rfl

theorem headed_concat_short (h : ¬ HeaderComplete (messages n)) :
    headed messages (arrivals ++ [n]) = headed messages arrivals := by
  rw [headed, List.filter_append, List.filter_cons_of_neg (by simpa using h)]
  exact List.append_nil _

theorem UdpRun.arriveMessage_short (h : ¬ HeaderComplete (messages n)) :
    s.arriveMessage messages n = s := by
  rw [arriveMessage, UdpReceiver.receive_short _ h]
  exact congrArg (UdpRun.mk _) (if_pos rfl)

theorem UdpRun.arriveMessage_discarded (hnumbered : Numbered messages)
    (hcomplete : HeaderComplete (messages n)) (h : ((n % 65536 : Nat) : Int) < s.receiver.nextRxSeq) :
    s.arriveMessage messages n = ⟨{ s.receiver with nextRxSeq := -1 }, s.delivered⟩ := by
  rw [arriveMessage, UdpReceiver.receive_complete _ hcomplete, hnumbered n hcomplete, nextTxSeq_eq,
    if_pos h]
  exact congrArg (UdpRun.mk _) (if_pos rfl)

theorem UdpRun.arriveMessage_yielded (hnumbered : Numbered messages)
    (hcomplete : HeaderComplete (messages n))
    (h : ¬ ((n % 65536 : Nat) : Int) < s.receiver.nextRxSeq) :
    s.arriveMessage messages n =
      ⟨⟨((n + 1) % 65536 : Nat), s.receiver.yields ++ [packetOf (messages n)]⟩,
        s.delivered ++ [n]⟩ := by
  have hlength : ¬ (s.receiver.yields ++ [packetOf (messages n)]).length =
      s.receiver.yields.length := by
    rw [List.length_append, List.length_singleton]
    omega
  have hnext : (((n % 65536 : Nat) : Int) + 1) % 65536 = ((n + 1) % 65536 : Nat) := by omega
  rw [arriveMessage, UdpReceiver.receive_complete _ hcomplete, hnumbered n hcomplete, nextTxSeq_eq,
    if_neg h, hnext]
  exact congrArg (UdpRun.mk _) (if_neg hlength)

/-- What holds of every run: a packet is expected only right behind the last datagram with a
header, which was yielded. -/
structure FreshInv (messages : Nat → List UInt8) (arrivals : List Nat) (s : UdpRun) : Prop where
  expected : s.receiver.nextRxSeq = -1 ∨ ∃ y, s.delivered.getLast? = some y ∧
    (headed messages arrivals).getLast? = some y ∧
    s.receiver.nextRxSeq = ((y + 1) % 65536 : Nat)
  subset : ∀ y ∈ s.delivered, y ∈ arrivals
  yields : s.receiver.yields = s.delivered.map fun y => packetOf (messages y)

theorem udpMessages_concat (messages : Nat → List UInt8) (arrivals : List Nat) (n : Nat) :
    udpMessages messages (arrivals ++ [n]) =
      (udpMessages messages arrivals).arriveMessage messages n := by
  rw [udpMessages, List.foldl_append]
  rfl

theorem FreshInv.arriveMessage (h : FreshInv messages arrivals s) (hnumbered : Numbered messages)
    (n : Nat) : FreshInv messages (arrivals ++ [n]) (s.arriveMessage messages n) := by
  have hsubset : ∀ y ∈ s.delivered, y ∈ arrivals ++ [n] := fun y hy =>
    List.mem_append_left _ (h.subset y hy)
  by_cases hcomplete : HeaderComplete (messages n)
  · have hlast : (headed messages (arrivals ++ [n])).getLast? = some n := by
      rw [headed_concat hcomplete, List.getLast?_concat]
    by_cases hdiscarded : ((n % 65536 : Nat) : Int) < s.receiver.nextRxSeq
    · rw [UdpRun.arriveMessage_discarded hnumbered hcomplete hdiscarded]
      exact ⟨.inl rfl, hsubset, h.yields⟩
    · rw [UdpRun.arriveMessage_yielded hnumbered hcomplete hdiscarded]
      refine ⟨.inr ⟨n, List.getLast?_concat, hlast, rfl⟩, ?_, ?_⟩
      · intro y hy
        rcases List.mem_append.mp hy with hy | hy
        · exact hsubset y hy
        · exact List.mem_append_right _ hy
      · rw [h.yields, List.map_append]
        rfl
  · rw [UdpRun.arriveMessage_short hcomplete]
    refine ⟨?_, hsubset, h.yields⟩
    rw [headed_concat_short hcomplete]
    exact h.expected

theorem udpMessages_inv (hnumbered : Numbered messages) (arrivals : List Nat) :
    FreshInv messages arrivals (udpMessages messages arrivals) := by
  induction arrivals using List.reverseRecOn with
  | nil =>
    refine ⟨.inl rfl, ?_, rfl⟩
    intro y hy
    cases hy
  | append_singleton arrivals n ih =>
    rw [udpMessages_concat]
    exact ih.arriveMessage hnumbered n

/-- What was yielded stays so, and only the datagram that arrives can be yielded. -/
theorem UdpRun.mem_arriveMessage {y : Nat} (hy : y ≠ n) :
    y ∈ (s.arriveMessage messages n).delivered ↔ y ∈ s.delivered := by
  rw [arriveMessage]
  split
  · exact Iff.rfl
  · simp [hy]

/-- One arrival: a datagram behind all others is yielded if and only if no wrap hides it. -/
theorem FreshInv.delivered_iff (h : FreshInv messages arrivals s) (hnumbered : Numbered messages)
    (hcomplete : HeaderComplete (messages n)) (hnew : ∀ y ∈ arrivals, y < n)
    (hgap : ∀ y, (headed messages arrivals).getLast? = some y →
      n < y + 2 ^ 15) :
    n ∈ (s.arriveMessage messages n).delivered ↔ FreshExpected s n := by
  by_cases hdiscarded : ((n % 65536 : Nat) : Int) < s.receiver.nextRxSeq
  · have hnot : n ∉ s.delivered := fun hn => Nat.lt_irrefl n (hnew n (h.subset n hn))
    rw [UdpRun.arriveMessage_discarded hnumbered hcomplete hdiscarded]
    refine iff_of_false hnot ?_
    intro hfresh
    rcases h.expected with hnone | ⟨y, hlast, harrived, hnext⟩
    · rw [hnone] at hdiscarded
      omega
    · have hlt := hnew y (h.subset y (List.mem_of_getLast? hlast))
      have hnear := hgap y harrived
      rw [hnext] at hdiscarded
      rcases hfresh y hlast with hnone | hround
      · rw [hnext] at hnone
        omega
      · omega
  · rw [UdpRun.arriveMessage_yielded hnumbered hcomplete hdiscarded]
    refine iff_of_true (List.mem_append_right _ (List.mem_singleton_self n)) ?_
    intro y hlast
    rcases h.expected with hnone | ⟨y', hlast', harrived, hnext⟩
    · exact .inl hnone
    · obtain rfl := Option.some.inj (hlast.symm.trans hlast')
      have hlt := hnew y (h.subset y (List.mem_of_getLast? hlast))
      have hnear := hgap y harrived
      rw [hnext] at hdiscarded
      exact .inr (by omega)

/-- The gap before the last datagram, and those before it. -/
theorem gaps_concat (h : (headed messages (arrivals ++ [n])).IsChain fun y n => n < y + 2 ^ 15) :
    ((headed messages arrivals).IsChain fun y n => n < y + 2 ^ 15) ∧
      (HeaderComplete (messages n) →
        ∀ y, (headed messages arrivals).getLast? = some y → n < y + 2 ^ 15) := by
  by_cases hcomplete : HeaderComplete (messages n)
  · rw [headed_concat hcomplete] at h
    obtain ⟨hearlier, -, hlast⟩ := List.isChain_append.mp h
    exact ⟨hearlier, fun _ y hy => hlast y hy n rfl⟩
  · rw [headed_concat_short hcomplete] at h
    exact ⟨h, fun hn => absurd hn hcomplete⟩

/-- **When UDP drops a fresh packet.** Of the datagrams of a connection that arrive in the order
in which they were sent, with fewer than 2^15 lost in a row, `receive` yields all that are well
formed if and only if each of them arrives where the counter does not wrap between it and the
packet expected. -/
theorem udpMessages_fresh_iff (hnumbered : Numbered messages) (horder : arrivals.Pairwise (· < ·))
    (hgap : (headed messages arrivals).IsChain fun y n => n < y + 2 ^ 15) :
    (udpMessages messages arrivals).receiver.yields =
        (udpMessages messages arrivals).delivered.map (fun n => packetOf (messages n)) ∧
      ((∀ n ∈ arrivals, WellFormed (messages n) →
          n ∈ (udpMessages messages arrivals).delivered) ↔
        ∀ earlier n later, arrivals = earlier ++ n :: later → WellFormed (messages n) →
          FreshExpected (udpMessages messages earlier) n) := by
  refine ⟨(udpMessages_inv hnumbered arrivals).yields, ?_⟩
  induction arrivals using List.reverseRecOn with
  | nil =>
    refine iff_of_true (fun n hn => absurd hn List.not_mem_nil) ?_
    intro earlier n later heq
    exact absurd heq.symm (List.append_ne_nil_of_right_ne_nil earlier (List.cons_ne_nil n later))
  | append_singleton arrivals n ih =>
    obtain ⟨hearlier, -, hnew⟩ := List.pairwise_append.mp horder
    have hnew' : ∀ y ∈ arrivals, y < n := fun y hy => hnew y hy n (List.mem_singleton_self n)
    obtain ⟨hgaps, hgap'⟩ := gaps_concat hgap
    have hinv := udpMessages_inv hnumbered arrivals
    rw [forall_split_concat (P := fun earlier n => WellFormed (messages n) →
      FreshExpected (udpMessages messages earlier) n), ← ih hearlier hgaps, udpMessages_concat,
      List.forall_mem_append, List.forall_mem_singleton]
    refine and_congr (forall₂_congr fun m hm => ?_) (forall_congr' fun hwell => ?_)
    · rw [UdpRun.mem_arriveMessage (hnew' m hm).ne]
    · exact hinv.delivered_iff hnumbered hwell.1 hnew' (hgap' hwell.1)

end

/-- Two losses within a round of the counter. -/
theorem udpMessages_fresh_losses :
    (udpMessages (datagram numberedPackets) [0, 2, 5]).delivered = [0, 2, 5] ∧
      ∀ earlier n later, [0, 2, 5] = earlier ++ n :: later →
        WellFormed (datagram numberedPackets n) →
          FreshExpected (udpMessages (datagram numberedPackets) earlier) n := by
  have hdelivered : (udpMessages (datagram numberedPackets) [0, 2, 5]).delivered = [0, 2, 5] := by
    decide
  have hgaps : (headed (datagram numberedPackets) [0, 2, 5]).IsChain fun y n => n < y + 2 ^ 15 := by
    decide
  refine ⟨hdelivered, (udpMessages_fresh_iff (datagram_numbered numberedPackets) (by decide)
    hgaps).2.mp ?_⟩
  rw [hdelivered]
  intro n hn _
  exact hn

/-- Packet 65535 is lost, and the first one behind the wrap of the counter is discarded. -/
theorem udpMessages_wrap :
    [65534, 65536].Pairwise (· < ·) ∧
      ((headed (datagram numberedPackets) [65534, 65536]).IsChain fun y n => n < y + 2 ^ 15) ∧
      WellFormed (datagram numberedPackets 65536) ∧
      65536 ∉ (udpMessages (datagram numberedPackets) [65534, 65536]).delivered := by
  have hlength : ∀ n, (datagram numberedPackets n).length = 6 := fun n => rfl
  have hcomplete : ∀ n, HeaderComplete (datagram numberedPackets n) := by
    intro n
    rw [HeaderComplete, hlength]
    decide
  have hwell : WellFormed (datagram numberedPackets 65536) := by
    refine ⟨hcomplete 65536, ?_⟩
    rw [hlength]
    decide
  have hheaded : headed (datagram numberedPackets) [65534, 65536] = [65534, 65536] :=
    List.filter_eq_self.mpr fun n _ => decide_eq_true (hcomplete n)
  refine ⟨List.pairwise_pair.mpr (by omega), ?_, hwell, ?_⟩
  · rw [hheaded]
    exact List.isChain_pair.mpr (by omega)
  · have hnumbered := datagram_numbered numberedPackets
    have hfirst : ¬ ((65534 % 65536 : Nat) : Int) < UdpReceiver.connected.nextRxSeq := by decide
    have hsecond : ((65536 % 65536 : Nat) : Int) < ((65534 + 1) % 65536 : Nat) := by decide
    change 65536 ∉ (((⟨.connected, []⟩ : UdpRun).arriveMessage (datagram numberedPackets)
      65534).arriveMessage (datagram numberedPackets) 65536).delivered
    rw [UdpRun.arriveMessage_yielded hnumbered (hcomplete 65534) hfirst,
      UdpRun.arriveMessage_discarded hnumbered (hcomplete 65536) hsecond]
    exact fun h => by simp at h

end AiDeck.Host
