import AiDeck.Lib.Transition
import AiDeck.Host.TcpTransport

/-! # The UDP transport of the host client

`UDPClientTransport` (aideck_cpx_streamer/cpx/transport/udp.py): the datagrams of `send` and
the generator `receive` over the datagrams of one connection, which may be lost, duplicated
and reordered on the way. -/
namespace AiDeck.Host
open AiDeck.Lib AiDeck.Lib.Bytes AiDeck.Cpx

structure UdpHeader where
  sequence : UInt16
  cpx : CpxHeader
  deriving DecidableEq

abbrev sizeofUdpHeader : Nat := 4
abbrev cpxUdpMaxFrameLength : Nat := 4092
abbrev cpxUdpMtu : Nat := cpxUdpMaxFrameLength - sizeofUdpHeader

namespace UdpHeader

def toBytes (h : UdpHeader) : List UInt8 := toLE16 h.sequence ++ h.cpx.toBytes

/-- `UDPHeader.from_buffer_copy`: the rest of the buffer is not read. -/
def fromBufferCopy (buffer : List UInt8) : UdpHeader :=
  ⟨ofLE16 buffer, CpxHeader.ofBytes (buffer.drop 2)⟩

@[simp] theorem toBytes_length (h : UdpHeader) : h.toBytes.length = sizeofUdpHeader := rfl

@[simp] theorem fromBufferCopy_toBytes (h : UdpHeader) (l : List UInt8) :
    fromBufferCopy (h.toBytes ++ l) = h := by
  obtain ⟨hsequence, hcpx⟩ := ofBytes_behind h.sequence h.cpx l
  rw [fromBufferCopy, toBytes, hsequence, hcpx]

end UdpHeader

/-! ## Sending -/

/-- `next_tx_seq` after the packets before packet `n` of a connection. -/
def nextTxSeq : Nat → Nat
  | 0 => 0
  | n + 1 => (nextTxSeq n + 1) % 65536

theorem nextTxSeq_eq (n : Nat) : nextTxSeq n = n % 65536 := by
  induction n with
  | zero => rfl
  | succ n ih => rw [nextTxSeq, ih, Nat.mod_add_mod]

/-- What `send` passes to `sendall` for packet `n`. -/
def datagram (packets : Nat → CpxPacket) (n : Nat) : List UInt8 :=
  UdpHeader.toBytes ⟨.ofNat (nextTxSeq n), (packets n).header⟩ ++ (packets n).payload

/-! ## Receiving -/

/-- The generator `receive` on a connection: `next_rx_seq` and what it has yielded. -/
structure UdpReceiver where
  nextRxSeq : Int
  yields : List CpxPacket
  deriving DecidableEq

/-- The assignments of `connect`. -/
def UdpReceiver.connected : UdpReceiver := ⟨-1, []⟩

/-- The loop body for a datagram: `recv` cuts it to the length of its buffer. -/
def UdpReceiver.receive (r : UdpReceiver) (message : List UInt8) : UdpReceiver :=
  let buffer := message.take cpxUdpMaxFrameLength
  if buffer.length < sizeofUdpHeader then r
  else
    let udpHeader := UdpHeader.fromBufferCopy buffer
    let buffer := buffer.drop sizeofUdpHeader
    let expectedLength := buffer.length
    if expectedLength > cpxUdpMtu then r
    else if (udpHeader.sequence.toNat : Int) < r.nextRxSeq then { r with nextRxSeq := -1 }
    else
      { nextRxSeq := (udpHeader.sequence.toNat + 1) % 65536
        yields := r.yields ++ [⟨udpHeader.cpx, buffer.take expectedLength⟩] }

/-- What `receive` makes of packet `n`. -/
def arrived (packets : Nat → CpxPacket) (n : Nat) : CpxPacket :=
  ⟨(packets n).header, (packets n).payload.take cpxUdpMtu⟩

theorem UdpReceiver.receive_datagram (r : UdpReceiver) (packets : Nat → CpxPacket) (n : Nat) :
    r.receive (datagram packets n) =
      if ((n % 65536 : Nat) : Int) < r.nextRxSeq then { r with nextRxSeq := -1 }
      else ⟨((n + 1) % 65536 : Nat), r.yields ++ [arrived packets n]⟩ := by
  have hbuffer : (datagram packets n).take cpxUdpMaxFrameLength =
      UdpHeader.toBytes ⟨.ofNat (nextTxSeq n), (packets n).header⟩ ++
        (packets n).payload.take cpxUdpMtu := by
    have hheader : sizeofUdpHeader ≤ cpxUdpMaxFrameLength := by decide
    rw [datagram, List.take_append, List.take_of_length_le hheader, UdpHeader.toBytes_length]
  have hlong : ¬ (UdpHeader.toBytes ⟨.ofNat (nextTxSeq n), (packets n).header⟩ ++
      (packets n).payload.take cpxUdpMtu).length < sizeofUdpHeader := by
    rw [List.length_append, UdpHeader.toBytes_length]
    exact Nat.not_lt.mpr (Nat.le_add_right _ _)
  have hshort : ¬ ((packets n).payload.take cpxUdpMtu).length > cpxUdpMtu :=
    Nat.not_lt.mpr (List.length_take_le _ _)
  have hsequence : (UInt16.ofNat (nextTxSeq n)).toNat = n % 65536 := by
    rw [nextTxSeq_eq, UInt16.toNat_ofNat', Nat.mod_mod]
  have hdrop : (UdpHeader.toBytes ⟨.ofNat (nextTxSeq n), (packets n).header⟩ ++
      (packets n).payload.take cpxUdpMtu).drop sizeofUdpHeader =
        (packets n).payload.take cpxUdpMtu := List.drop_left' (UdpHeader.toBytes_length _)
  have hnext : (((n % 65536 : Nat) : Int) + 1) % 65536 = ((n + 1) % 65536 : Nat) := by omega
  simp only [receive, hbuffer, if_neg hlong, hdrop, if_neg hshort,
    UdpHeader.fromBufferCopy_toBytes, hsequence, List.take_length, hnext]
  rfl

/-! ## The order of what is yielded -/

/-- The generator and the numbers of the packets that it has yielded. -/
structure UdpRun where
  receiver : UdpReceiver
  delivered : List Nat
  deriving DecidableEq

/-- The datagram of packet `n` arrives. -/
def UdpRun.arrive (packets : Nat → CpxPacket) (s : UdpRun) (n : Nat) : UdpRun :=
  let receiver := s.receiver.receive (datagram packets n)
  ⟨receiver,
    if receiver.yields.length = s.receiver.yields.length then s.delivered else s.delivered ++ [n]⟩

/-- The datagrams of a connection in the order in which they arrive. -/
def udpRun (packets : Nat → CpxPacket) (arrivals : List Nat) : UdpRun :=
  arrivals.foldl (UdpRun.arrive packets) ⟨.connected, []⟩

/-- Packet `n` arrives while a packet at least as new is the last one yielded: the datagram
before was not discarded, and the counter does not wrap between `n` and the expected packet. -/
def StaleExpected (s : UdpRun) (n : Nat) : Prop :=
  ∀ y, s.delivered.getLast? = some y → n ≤ y →
    s.receiver.nextRxSeq ≠ -1 ∧ n / 65536 = (y + 1) / 65536

section
variable {packets : Nat → CpxPacket} {arrivals : List Nat} {s : UdpRun} {n : Nat}

theorem UdpRun.arrive_discarded (h : ((n % 65536 : Nat) : Int) < s.receiver.nextRxSeq) :
    s.arrive packets n = ⟨{ s.receiver with nextRxSeq := -1 }, s.delivered⟩ := by
  rw [arrive, UdpReceiver.receive_datagram, if_pos h]
  exact congrArg (UdpRun.mk _) (if_pos rfl)

theorem UdpRun.arrive_yielded (h : ¬ ((n % 65536 : Nat) : Int) < s.receiver.nextRxSeq) :
    s.arrive packets n = ⟨⟨((n + 1) % 65536 : Nat), s.receiver.yields ++ [arrived packets n]⟩,
      s.delivered ++ [n]⟩ := by
  have hlength : ¬ (s.receiver.yields ++ [arrived packets n]).length =
      s.receiver.yields.length := by
    rw [List.length_append, List.length_singleton]
    omega
  rw [arrive, UdpReceiver.receive_datagram, if_neg h]
  exact congrArg (UdpRun.mk _) (if_neg hlength)

/-- What holds of every run: a packet is expected only right behind one that was yielded. -/
structure UdpInv (packets : Nat → CpxPacket) (arrivals : List Nat) (s : UdpRun) : Prop where
  expected : s.receiver.nextRxSeq = -1 ∨ ∃ y, s.delivered.getLast? = some y ∧
    s.receiver.nextRxSeq = ((y + 1) % 65536 : Nat)
  subset : ∀ y ∈ s.delivered, y ∈ arrivals
  yields : s.receiver.yields = s.delivered.map (arrived packets)

theorem udpRun_concat (packets : Nat → CpxPacket) (arrivals : List Nat) (n : Nat) :
    udpRun packets (arrivals ++ [n]) = (udpRun packets arrivals).arrive packets n := by
  rw [udpRun, List.foldl_append]
  rfl

theorem UdpInv.arrive (h : UdpInv packets arrivals s) (n : Nat) :
    UdpInv packets (arrivals ++ [n]) (s.arrive packets n) := by
  by_cases hdiscarded : ((n % 65536 : Nat) : Int) < s.receiver.nextRxSeq
  · rw [UdpRun.arrive_discarded hdiscarded]
    refine ⟨.inl rfl, ?_, h.yields⟩
    intro y hy
    exact List.mem_append_left _ (h.subset y hy)
  · rw [UdpRun.arrive_yielded hdiscarded]
    refine ⟨.inr ⟨n, List.getLast?_concat, rfl⟩, ?_, ?_⟩
    · intro y hy
      rcases List.mem_append.mp hy with hy | hy
      · exact List.mem_append_left _ (h.subset y hy)
      · exact List.mem_append_right _ hy
    · rw [h.yields, List.map_append]
      rfl

theorem udpRun_inv (packets : Nat → CpxPacket) (arrivals : List Nat) :
    UdpInv packets arrivals (udpRun packets arrivals) := by
  induction arrivals using List.reverseRecOn with
  | nil =>
    refine ⟨.inl rfl, ?_, rfl⟩
    intro y hy
    cases hy
  | append_singleton arrivals n ih =>
    rw [udpRun_concat]
    exact ih.arrive n

/-- The last of an increasing list is its greatest. -/
theorem le_getLast {l : List Nat} {x y : Nat} (h : l.Pairwise (· < ·)) (hlast : l.getLast? = some y)
    (hx : x ∈ l) : x ≤ y := by
  obtain ⟨earlier, rfl⟩ := List.getLast?_eq_some_iff.mp hlast
  rcases List.mem_append.mp hx with hx | hx
  · exact ((List.pairwise_append.mp h).2.2 x hx y (List.mem_singleton_self y)).le
  · exact (List.mem_singleton.mp hx).le

/-- One arrival: the order is kept if and only if a packet that is not new is discarded. -/
theorem UdpInv.arrive_increasing_iff (h : UdpInv packets arrivals s)
    (hincreasing : s.delivered.Pairwise (· < ·)) (hdisplaced : ∀ y ∈ arrivals, y < n + 2 ^ 15) :
    (s.arrive packets n).delivered.Pairwise (· < ·) ↔ StaleExpected s n := by
  by_cases hdiscarded : ((n % 65536 : Nat) : Int) < s.receiver.nextRxSeq
  · rw [UdpRun.arrive_discarded hdiscarded]
    refine iff_of_true hincreasing ?_
    intro y hlast hle
    have hnear := hdisplaced y (h.subset y (List.mem_of_getLast? hlast))
    rcases h.expected with hnone | ⟨y', hlast', hnext⟩
    · rw [hnone] at hdiscarded
      omega
    · obtain rfl := Option.some.inj (hlast.symm.trans hlast')
      rw [hnext] at hdiscarded ⊢
      omega
  · rw [UdpRun.arrive_yielded hdiscarded]
    have hnew : (s.delivered ++ [n]).Pairwise (· < ·) ↔ ∀ y ∈ s.delivered, y < n := by
      rw [List.pairwise_append]
      simp [hincreasing]
    rw [hnew]
    constructor
    · intro hall y hlast hle
      exact absurd (hall y (List.mem_of_getLast? hlast)) (Nat.not_lt.mpr hle)
    · intro hstale y hy
      obtain ⟨last, hlast⟩ := Option.ne_none_iff_exists'.mp
        (mt List.getLast?_eq_none_iff.mp (List.ne_nil_of_mem hy))
      refine lt_of_le_of_lt (le_getLast hincreasing hlast hy) (Nat.lt_of_not_le ?_)
      intro hle
      obtain ⟨hwaiting, hround⟩ := hstale last hlast hle
      rcases h.expected with hnone | ⟨y', hlast', hnext⟩
      · exact hwaiting hnone
      · obtain rfl := Option.some.inj (hlast.symm.trans hlast')
        rw [hnext] at hdiscarded
        omega

/-- The order can only be lost. -/
theorem UdpRun.increasing_of_arrive (h : (s.arrive packets n).delivered.Pairwise (· < ·)) :
    s.delivered.Pairwise (· < ·) := by
  by_cases hdiscarded : ((n % 65536 : Nat) : Int) < s.receiver.nextRxSeq
  · rwa [UdpRun.arrive_discarded hdiscarded] at h
  · rw [UdpRun.arrive_yielded hdiscarded] at h
    exact (List.pairwise_append.mp h).1

/-- **When UDP goes backwards.** Packets of a connection that arrive with less than 2^15 newer
ones before them are yielded in the order in which they were sent if and only if each one that
is not new arrives while it can be told from a new one. -/
theorem udpRun_increasing_iff (packets : Nat → CpxPacket)
    (h : arrivals.Pairwise fun y n => y < n + 2 ^ 15) :
    (udpRun packets arrivals).receiver.yields =
        (udpRun packets arrivals).delivered.map (arrived packets) ∧
      ((udpRun packets arrivals).delivered.Pairwise (· < ·) ↔
        ∀ earlier n later, arrivals = earlier ++ n :: later →
          StaleExpected (udpRun packets earlier) n) := by
  refine ⟨(udpRun_inv packets arrivals).yields, ?_⟩
  induction arrivals using List.reverseRecOn with
  | nil =>
    refine iff_of_true .nil ?_
    intro earlier n later heq
    exact absurd heq.symm (List.append_ne_nil_of_right_ne_nil earlier (List.cons_ne_nil n later))
  | append_singleton arrivals n ih =>
    obtain ⟨harrivals, -, hdisplaced⟩ := List.pairwise_append.mp h
    have hdisplaced' : ∀ y ∈ arrivals, y < n + 2 ^ 15 := by
      intro y hy
      exact hdisplaced y hy n (List.mem_singleton_self n)
    rw [forall_split_concat, ← ih harrivals, udpRun_concat]
    constructor
    · intro hincreasing
      have hbefore := UdpRun.increasing_of_arrive hincreasing
      exact ⟨hbefore,
        ((udpRun_inv packets arrivals).arrive_increasing_iff hbefore hdisplaced').mp hincreasing⟩
    · rintro ⟨hbefore, hstale⟩
      exact ((udpRun_inv packets arrivals).arrive_increasing_iff hbefore hdisplaced').mpr hstale

end

/-- Packets with two bytes of payload. -/
def numberedPackets (n : Nat) : CpxPacket := ⟨⟨3, 4, 1, 0, 6, 0⟩, toLE16 (.ofNat n)⟩

/-- Two packets change places: the one that is late is discarded. -/
theorem udpRun_increasing_swapped :
    (udpRun numberedPackets [0, 2, 1]).delivered = [0, 2] ∧
      ∀ earlier n later, [0, 2, 1] = earlier ++ n :: later →
        StaleExpected (udpRun numberedPackets earlier) n := by
  have hdelivered : (udpRun numberedPackets [0, 2, 1]).delivered = [0, 2] := by decide
  have hdisplaced : [0, 2, 1].Pairwise fun y n => y < n + 2 ^ 15 := by decide
  refine ⟨hdelivered, (udpRun_increasing_iff numberedPackets hdisplaced).2.mp ?_⟩
  rw [hdelivered]
  decide

/-- Two packets are late, and the second one is yielded; the packet before the wrap of the
counter is yielded behind the last one before the wrap. -/
theorem udpRun_backwards :
    ([2, 0, 1].Pairwise fun y n => y < n + 2 ^ 15) ∧
      (udpRun numberedPackets [2, 0, 1]).delivered = [2, 1] ∧
      ([65535, 65534].Pairwise fun y n => y < n + 2 ^ 15) ∧
      (udpRun numberedPackets [65535, 65534]).delivered = [65535, 65534] := by
  have hnear : [65535, 65534].Pairwise fun y n => y < n + 2 ^ 15 :=
    List.pairwise_pair.mpr (by omega)
  have hlate : (udpRun numberedPackets [2, 0, 1]).delivered = [2, 1] := by decide
  refine ⟨by decide, hlate, hnear, ?_⟩
  have hfirst : ¬ ((65535 % 65536 : Nat) : Int) < UdpReceiver.connected.nextRxSeq := by decide
  have hsecond : ¬ ((65534 % 65536 : Nat) : Int) < ((65535 + 1) % 65536 : Nat) := by decide
  change (((⟨.connected, []⟩ : UdpRun).arrive numberedPackets 65535).arrive
    numberedPackets 65534).delivered = _
  rw [UdpRun.arrive_yielded (n := 65535) hfirst, UdpRun.arrive_yielded (n := 65534) hsecond]
  rfl

end AiDeck.Host
