import AiDeck.Cpx.Spi
import AiDeck.Host.TcpTransport
import AiDeck.Streamer.Packet

/-! # Sending a frame

`streamer_send_task` (nanocockpit/lib/streamer.c) over the send requests of
nanocockpit/lib/cpx/cpx.c: a frame goes out as one BUFFER_BEGIN packet and as many
BUFFER_DATA packets as it takes. The head of a packet lies in the request, its tail is
read where the frame lies. -/
namespace AiDeck.Streamer
open AiDeck.Lib.Bytes AiDeck.Cpx AiDeck.Host AiDeck.Coroutine

/-- `cpx_send_req_t` with its `payload` array: the bytes and the address, which
`cpx_send_req_alloc` has checked. -/
structure CpxSendReq where
  header : CpxHeader
  payloadCapacity : UInt16
  req : CpxSpiSendReq
  payload : Nat → UInt8
  payloadAddress : Ptr
  payload_aligned : payloadAddress % 4 = 0

/-- A failed assertion of cpx_spi.c ends the program. -/
def ofSpi {α : Type} : Except SpiAssertion α → Except Stop α
  | .ok x => .ok x
  | .error e => .error (.assertion e.message)

namespace CpxSendReq

def withReq (r : CpxSendReq) (req : CpxSpiSendReq) : CpxSendReq := { r with req := req }

/-- A store to the payload. -/
def store (r : CpxSendReq) (offset : Nat) (bytes : List UInt8) : CpxSendReq :=
  { r with payload := overwrite r.payload offset bytes }

/-- `cpx_send_req_set_head_length` -/
def setHeadLength (r : CpxSendReq) (payloadLength : UInt16) : Except Stop CpxSendReq :=
  if r.payloadCapacity < payloadLength then
    .error (.assertion "CPX payload length (%d) exceeds allocated capacity (%d)")
  else do
    let req ← ofSpi (r.req.setHead r.payloadAddress payloadLength)
    return r.withReq req

/-- `cpx_send_req_max_tail_length` -/
def maxTailLength (r : CpxSendReq) : Nat := r.req.maxTailLength

/-- `cpx_send_req_set_tail` -/
def setTail (r : CpxSendReq) (payloadTail : Ptr) (tailLength : UInt16) : Except Stop CpxSendReq := do
  let req ← ofSpi (r.req.setTail payloadTail tailLength)
  return r.withReq req

/-- `cpx_send_req_alloc`: the addresses and the bytes of the payload are what the allocator
gives it. -/
def alloc (address payloadAddress : Ptr) (aligned : address % 4 = 0) (ne : address ≠ 0)
    (payload_aligned : payloadAddress % 4 = 0) (payload : Nat → UInt8) (payloadCapacity : UInt16) :
    Except Stop CpxSendReq := do
  let req ← ofSpi (CpxSpiSendReq.init address aligned ne payloadAddress payloadCapacity 0 0)
  return ⟨⟨0, 0, 0, 0, 0, 0⟩, payloadCapacity, req, payload, payloadAddress, payload_aligned⟩

/-- The packet that the request sends: its head and the tail in memory. -/
def packet (r : CpxSendReq) (mem : Nat → UInt8) : CpxPacket :=
  ⟨r.header, segment r.payload 0 r.req.headLength.toNat ++
    segment mem r.req.payloadTail r.req.tailLength.toNat⟩

end CpxSendReq

/-! ## streamer.c -/

/-- `CPX_HEADER_INIT(CPX_T_WIFI_HOST, CPX_F_STREAMER)` -/
def streamerHeader : CpxHeader where
  destination := 3
  source := 4
  lastPacket := 1
  reserved := 0
  function := cpxFStreamer
  version := cpxVersion

/-- The request that `streamer_init` allocates. -/
def streamerInit (address payloadAddress : Ptr) (aligned : address % 4 = 0) (ne : address ≠ 0)
    (payload_aligned : payloadAddress % 4 = 0) (payload : Nat → UInt8) : Except Stop CpxSendReq := do
  let cpxReq ← CpxSendReq.alloc address payloadAddress aligned ne payload_aligned payload
    (.ofNat sizeofPacket)
  return { cpxReq with header := streamerHeader }

/-- `streamer_packet_init` -/
def streamerPacketInit (cpxReq : CpxSendReq) (command : UInt8) : Except Stop CpxSendReq := do
  let req ← (cpxReq.store 0 [command]).setTail 0 0
  let headLength ← streamerPacketHeadLength command
  req.setHeadLength (.ofNat headLength)

/-- The static variables of `streamer_send_task` that change from packet to packet. -/
structure SendState where
  cpxReq : CpxSendReq
  packetPayload : Ptr
  remainingLength : Int

/-- `packet_length`: the last segment is rounded up to whole words. -/
def packetLength (remainingLength : Int) (maxTailLength : Nat) : UInt16 :=
  let length := UInt16.ofNat (min remainingLength maxTailLength).toNat
  if (length.toNat : Int) = remainingLength ∧ length.toNat % 4 ≠ 0 then
    .ofNat (length.toNat + (4 - length.toNat % 4))
  else length

section
variable (mem : Nat → UInt8) (frameSize : Nat) (checksum : UInt32)

/-- The start of the loop body: the header of the packet. -/
def streamerPacketBegin (s : SendState) : Except Stop CpxSendReq :=
  if s.remainingLength = frameSize then do
    let req ← streamerPacketInit s.cpxReq cmdBufferBegin
    return req.store 1 (StreamerBegin.toBytes ⟨typeImage, .ofNat frameSize, checksum⟩)
  else streamerPacketInit s.cpxReq cmdBufferData

/-- The loop body with the packet it sends. -/
def streamerSendPacket (s : SendState) : Except Stop (CpxPacket × SendState) := do
  let req ← streamerPacketBegin frameSize checksum s
  let length := packetLength s.remainingLength req.maxTailLength
  let req ← req.setTail s.packetPayload length
  return (req.packet mem,
    ⟨req, s.packetPayload + length.toNat, s.remainingLength - length.toNat⟩)

/-- The loop, with the packets it sends, given so many rounds. -/
def streamerSendLoop : Nat → SendState → Except Stop (List CpxPacket)
  | 0, _ => .error .diverged
  | rounds + 1, s =>
    if 0 < s.remainingLength then do
      let sent ← streamerSendPacket mem frameSize checksum s
      let packets ← streamerSendLoop rounds sent.2
      return sent.1 :: packets
    else .ok []

end

/-- `streamer_send_task` with the packets it sends; `sendChecksum` says whether
`STREAMER_SEND_CHECKSUM` is defined. A frame of `n` bytes takes at most `n` packets. -/
def streamerSendTask (sendChecksum : Bool) (mem : Nat → UInt8) (cpxReq : CpxSendReq)
    (payload : Ptr) (frameSize : Nat) : Except Stop (List CpxPacket) :=
  let checksum :=
    if sendChecksum then streamerComputeChecksum (segment mem payload frameSize) else 0
  streamerSendLoop mem frameSize checksum (frameSize + 1) ⟨cpxReq, payload, frameSize⟩

/-! ## One packet -/

section
variable {r : CpxSendReq} {command : UInt8} {headLength : Nat}

/-- What a packet carries behind its header: all that remains, rounded up, or as much as
fits. -/
def tailLength (remaining maxTail : Nat) : Nat :=
  if remaining ≤ maxTail then (remaining + 3) / 4 * 4 else maxTail

theorem tailLength_words {remaining maxTail : Nat} (h : maxTail % 4 = 0) :
    tailLength remaining maxTail % 4 = 0 := by
  rw [tailLength]
  split
  · exact Nat.mul_mod_left _ _
  · exact h

theorem tailLength_le {remaining maxTail : Nat} (h : maxTail % 4 = 0) :
    tailLength remaining maxTail ≤ maxTail := by
  rw [tailLength]
  split
  · omega
  · exact le_rfl

theorem packetLength_eq {remaining maxTail : Nat} (h : maxTail % 4 = 0) (hmax : maxTail < 2 ^ 16) :
    (packetLength remaining maxTail).toNat = tailLength remaining maxTail := by
  have hmin : (min (remaining : Int) maxTail).toNat = min remaining maxTail := by omega
  have hle : min remaining maxTail < 2 ^ 16 := by omega
  have hlength : (UInt16.ofNat (min remaining maxTail)).toNat = min remaining maxTail := by
    rw [UInt16.toNat_ofNat', Nat.mod_eq_of_lt hle]
  rw [packetLength, hmin, hlength, tailLength]
  by_cases hlast : remaining ≤ maxTail
  · rw [Nat.min_eq_left hlast, if_pos hlast]
    by_cases hwords : remaining % 4 = 0
    · rw [if_neg (fun hne => hne.2 hwords), UInt16.toNat_ofNat']
      omega
    · rw [if_pos ⟨rfl, hwords⟩, UInt16.toNat_ofNat']
      omega
  · rw [Nat.min_eq_right (Nat.le_of_not_le hlast), if_neg hlast, if_neg, UInt16.toNat_ofNat']
    · omega
    · omega

theorem setTail_ok (r : CpxSendReq) {payloadTail : Ptr} {length : UInt16}
    (ha : payloadTail % 4 = 0) (hw : length.toNat % 4 = 0)
    (hl : r.req.headLength.toNat + length.toNat ≤ cpxSpiMtu) :
    ∃ req, r.setTail payloadTail length = .ok (r.withReq req) ∧
      req.headLength = r.req.headLength ∧ req.tailLength = length ∧
      req.payloadTail = payloadTail := by
  obtain ⟨req, hok, hreq⟩ := r.req.setTail_ok ha hw hl
  refine ⟨req, ?_, hreq⟩
  rw [CpxSendReq.setTail, hok]
  rfl

/-- What `streamer_init` leaves in its request, and no packet changes. -/
structure IsStreamerReq (cpxReq : CpxSendReq) : Prop where
  header : cpxReq.header = streamerHeader
  capacity : cpxReq.payloadCapacity.toNat = sizeofPacket

theorem streamerInit_ok {address payloadAddress : Ptr} (aligned : address % 4 = 0)
    (ne : address ≠ 0) (payload_aligned : payloadAddress % 4 = 0) (payload : Nat → UInt8) :
    ∃ cpxReq, streamerInit address payloadAddress aligned ne payload_aligned payload = .ok cpxReq ∧
      IsStreamerReq cpxReq := by
  have hwords : (UInt16.ofNat sizeofPacket).toNat % 4 = 0 := rfl
  have hsmall : (UInt16.ofNat sizeofPacket).toNat ≤ cpxSpiMtu := by decide
  have hempty : (0 : UInt16).toNat % 4 = 0 := rfl
  have hnull : (0 : Ptr) % 4 = 0 := rfl
  obtain ⟨req, hhead, hheadLength, -⟩ :=
    (CpxSpiSendReq.zero address aligned ne).setHead_ok payload_aligned hwords hsmall
  obtain ⟨req', htail, -⟩ := req.setTail_ok hnull hempty (hheadLength ▸ hsmall)
  refine ⟨{ (⟨⟨0, 0, 0, 0, 0, 0⟩, .ofNat sizeofPacket, req', payload, payloadAddress,
    payload_aligned⟩ : CpxSendReq) with header := streamerHeader }, ?_, rfl, rfl⟩
  have hinit : CpxSpiSendReq.init address aligned ne payloadAddress (.ofNat sizeofPacket) 0 0 =
      .ok req' := by
    rw [CpxSpiSendReq.init, hhead]
    exact htail
  rw [streamerInit, CpxSendReq.alloc, hinit]
  rfl

/-- The header of a packet is in place, and nothing behind it yet. -/
structure HeadReady (r r' : CpxSendReq) (headLength : Nat) : Prop where
  header : r'.header = r.header
  capacity : r'.payloadCapacity = r.payloadCapacity
  headLength : r'.req.headLength.toNat = headLength

theorem streamerPacketInit_ok (r : CpxSendReq) (hcapacity : r.payloadCapacity.toNat = sizeofPacket)
    (hhead : streamerPacketHeadLength command = .ok headLength) (hle : headLength ≤ sizeofPacket)
    (hwords : headLength % 4 = 0) :
    ∃ r', streamerPacketInit r command = .ok r' ∧ HeadReady r r' headLength ∧
      r'.payload = overwrite r.payload 0 [command] := by
  have hsmall : headLength ≤ 12 := hle
  have hlength : (UInt16.ofNat headLength).toNat = headLength := by
    rw [UInt16.toNat_ofNat', Nat.mod_eq_of_lt (by omega)]
  have hold : (r.store 0 [command]).req.headLength.toNat + (0 : UInt16).toNat ≤ cpxSpiMtu :=
    Nat.le_of_add_right_le r.req.length_le
  have hnull : (0 : Ptr) % 4 = 0 := rfl
  have hempty : (0 : UInt16).toNat % 4 = 0 := rfl
  obtain ⟨req, hok, -, htail, -⟩ := setTail_ok (r.store 0 [command]) hnull hempty hold
  have hfits : (UInt16.ofNat headLength).toNat + req.tailLength.toNat ≤ cpxSpiMtu := by
    rw [hlength, htail]
    exact hle.trans (by decide)
  obtain ⟨req', hok', hhead', -⟩ := req.setHead_ok r.payload_aligned (hlength.symm ▸ hwords) hfits
  refine ⟨((r.store 0 [command]).withReq req).withReq req', ?_, ⟨rfl, rfl, ?_⟩, rfl⟩
  · have hroom : ¬ r.payloadCapacity < UInt16.ofNat headLength := by
      rw [UInt16.lt_iff_toNat_lt, hlength, hcapacity]
      exact Nat.not_lt.mpr hle
    have hset : ((r.store 0 [command]).withReq req).setHeadLength (.ofNat headLength) =
        .ok (((r.store 0 [command]).withReq req).withReq req') := by
      rw [CpxSendReq.setHeadLength]
      refine (if_neg hroom).trans ?_
      change (do let req ← ofSpi (req.setHead r.payloadAddress (.ofNat headLength)); _) = _
      rw [hok']
      rfl
    rw [streamerPacketInit, hok, hhead]
    exact hset
  · change req'.headLength.toNat = headLength
    rw [hhead', hlength]

end

/-! ## All packets -/

/-- The head of the packet sent when `remaining` bytes are left: the padding of a
BUFFER_DATA head is what an earlier packet left in the request. -/
def IsHead (frameSize : Nat) (checksum : UInt32) (remaining : Nat) (head : List UInt8) : Prop :=
  if remaining = frameSize then
    head = cmdBufferBegin :: StreamerBegin.toBytes ⟨typeImage, .ofNat frameSize, checksum⟩
  else ∃ padding : List UInt8, padding.length = sizeofData ∧ head = cmdBufferData :: padding

/-- A head leaves room for at least one word. -/
theorem IsHead.length {frameSize remaining : Nat} {checksum : UInt32} {head : List UInt8}
    (h : IsHead frameSize checksum remaining head) : head.length % 4 = 0 ∧ head.length ≤ 12 := by
  rw [IsHead] at h
  split at h
  · subst h
    rw [List.length_cons, StreamerBegin.toBytes_length]
    exact ⟨rfl, le_rfl⟩
  · obtain ⟨padding, hpadding, rfl⟩ := h
    rw [List.length_cons, hpadding]
    exact ⟨rfl, by decide⟩

/-- The packets that carry the `remaining` bytes from address `p` on. -/
inductive Sent (mem : Nat → UInt8) (frameSize : Nat) (checksum : UInt32) (header : CpxHeader) :
    Ptr → Nat → List CpxPacket → Prop
  | last {p remaining head} (hhead : IsHead frameSize checksum remaining head)
      (hpos : 0 < remaining) (hle : remaining ≤ cpxSpiMtu - head.length) :
    Sent mem frameSize checksum header p remaining
      [⟨header, head ++ segment mem p ((remaining + 3) / 4 * 4)⟩]
  | more {p remaining head packets} (hhead : IsHead frameSize checksum remaining head)
      (hlt : cpxSpiMtu - head.length < remaining)
      (rest : Sent mem frameSize checksum header (p + (cpxSpiMtu - head.length))
        (remaining - (cpxSpiMtu - head.length)) packets) :
    Sent mem frameSize checksum header p remaining
      (⟨header, head ++ segment mem p (cpxSpiMtu - head.length)⟩ :: packets)

section
variable {mem : Nat → UInt8} {frameSize : Nat} {checksum : UInt32}

theorem maxTailLength_eq {r : CpxSendReq} (h : r.req.headLength.toNat % 4 = 0) :
    r.maxTailLength = cpxSpiMtu - r.req.headLength.toNat := by
  have hle : r.req.headLength.toNat ≤ 4088 := Nat.le_of_add_right_le r.req.length_le
  have hwords : ¬ (cpxSpiMtu - r.req.headLength.toNat) % 4 ≠ 0 := by
    change ¬ (4088 - r.req.headLength.toNat) % 4 ≠ 0
    omega
  rw [CpxSendReq.maxTailLength, CpxSpiSendReq.maxTailLength, if_neg hwords]

theorem streamerPacketBegin_ok (frameSize : Nat) (checksum : UInt32) {s : SendState}
    {remaining : Nat}
    (hremaining : s.remainingLength = remaining)
    (hcapacity : s.cpxReq.payloadCapacity.toNat = sizeofPacket) :
    ∃ r head, streamerPacketBegin frameSize checksum s = .ok r ∧
      HeadReady s.cpxReq r head.length ∧ IsHead frameSize checksum remaining head ∧
      segment r.payload 0 head.length = head := by
  by_cases hfirst : remaining = frameSize
  · obtain ⟨r, hok, hready, hpayload⟩ := streamerPacketInit_ok s.cpxReq hcapacity
      (streamerPacketHeadLength_begin rfl) le_rfl rfl
    refine ⟨r.store 1 (StreamerBegin.toBytes ⟨typeImage, .ofNat frameSize, checksum⟩),
      cmdBufferBegin :: StreamerBegin.toBytes ⟨typeImage, .ofNat frameSize, checksum⟩, ?_,
      ⟨hready.header, hready.capacity, hready.headLength⟩, by rw [IsHead, if_pos hfirst], ?_⟩
    · rw [streamerPacketBegin, if_pos (by rw [hremaining, hfirst]), hok]
      rfl
    · rw [List.length_cons, Nat.add_comm, segment_add]
      have hbytes := segment_overwrite r.payload 1
        (StreamerBegin.toBytes ⟨typeImage, .ofNat frameSize, checksum⟩)
      have hcommand : segment (r.store 1
          (StreamerBegin.toBytes ⟨typeImage, .ofNat frameSize, checksum⟩)).payload 0 1 =
          [cmdBufferBegin] := by
        rw [CpxSendReq.store, segment_overwrite_disjoint _ _ (.inl (Nat.zero_add 1).le), hpayload]
        exact segment_overwrite s.cpxReq.payload 0 [cmdBufferBegin]
      rw [hcommand, Nat.zero_add]
      exact congrArg (cmdBufferBegin :: ·) hbytes
  · obtain ⟨r, hok, hready, hpayload⟩ := streamerPacketInit_ok s.cpxReq hcapacity
      (streamerPacketHeadLength_data rfl) (by decide) rfl
    have hhead : segment r.payload 0 4 = cmdBufferData :: segment r.payload 1 3 := by
      have hcommand : segment r.payload 0 1 = [cmdBufferData] := by
        rw [hpayload]
        exact segment_overwrite s.cpxReq.payload 0 [cmdBufferData]
      have hsplit := segment_add r.payload 0 1 3
      rw [hcommand, Nat.zero_add] at hsplit
      exact hsplit
    refine ⟨r, cmdBufferData :: segment r.payload 1 3, ?_, hready, ?_, hhead⟩
    · have hne : ¬ s.remainingLength = frameSize := by
        rw [hremaining]
        exact_mod_cast hfirst
      rw [streamerPacketBegin, if_neg hne, hok]
    · rw [IsHead, if_neg hfirst]
      exact ⟨segment r.payload 1 3, segment_length _ _ _, rfl⟩

/-- One round: the packet, and where the next one starts. -/
theorem streamerSendPacket_ok (mem : Nat → UInt8) (frameSize : Nat) (checksum : UInt32)
    {s : SendState} {remaining : Nat}
    (hremaining : s.remainingLength = remaining) (haligned : s.packetPayload % 4 = 0)
    (hcapacity : s.cpxReq.payloadCapacity.toNat = sizeofPacket) :
    ∃ head r, IsHead frameSize checksum remaining head ∧
      r.header = s.cpxReq.header ∧ r.payloadCapacity = s.cpxReq.payloadCapacity ∧
      streamerSendPacket mem frameSize checksum s =
        .ok (⟨s.cpxReq.header, head ++ segment mem s.packetPayload
            (tailLength remaining (cpxSpiMtu - head.length))⟩,
          ⟨r, s.packetPayload + tailLength remaining (cpxSpiMtu - head.length),
            remaining - tailLength remaining (cpxSpiMtu - head.length)⟩) := by
  obtain ⟨r, head, hok, hready, hhead, hbytes⟩ :=
    streamerPacketBegin_ok frameSize checksum hremaining hcapacity
  obtain ⟨hwords, hsmall⟩ := hhead.length
  have hmax : r.maxTailLength = cpxSpiMtu - head.length := by
    rw [maxTailLength_eq (hready.headLength.symm ▸ hwords), hready.headLength]
  have hmaxWords : (cpxSpiMtu - head.length) % 4 = 0 := by
    change (4088 - head.length) % 4 = 0
    omega
  have hmaxSmall : cpxSpiMtu - head.length < 2 ^ 16 := by
    change 4088 - head.length < 2 ^ 16
    omega
  have hlength : (packetLength s.remainingLength r.maxTailLength).toNat =
      tailLength remaining (cpxSpiMtu - head.length) := by
    rw [hremaining, hmax, packetLength_eq hmaxWords hmaxSmall]
  have hfits : r.req.headLength.toNat + (packetLength s.remainingLength r.maxTailLength).toNat ≤
      cpxSpiMtu := by
    have hle : tailLength remaining (cpxSpiMtu - head.length) ≤ cpxSpiMtu - head.length :=
      tailLength_le hmaxWords
    have hmtu : head.length ≤ cpxSpiMtu := hsmall.trans (by decide)
    rw [hlength, hready.headLength]
    omega
  obtain ⟨req, htail, hreqHead, hreqLength, hreqTail⟩ :=
    setTail_ok r haligned (hlength.symm ▸ tailLength_words hmaxWords) hfits
  refine ⟨head, r.withReq req, hhead, hready.header, hready.capacity, ?_⟩
  have hpacket : (r.withReq req).packet mem = ⟨s.cpxReq.header, head ++ segment mem
      s.packetPayload (tailLength remaining (cpxSpiMtu - head.length))⟩ := by
    have hreqHead' : (r.withReq req).req.headLength.toNat = head.length := by
      rw [← hready.headLength, ← hreqHead]
      rfl
    have hreqLength' : (r.withReq req).req.tailLength.toNat =
        tailLength remaining (cpxSpiMtu - head.length) := by
      rw [← hlength, ← hreqLength]
      rfl
    have hreqTail' : (r.withReq req).req.payloadTail = s.packetPayload := hreqTail
    have hpayload : (r.withReq req).payload = r.payload := rfl
    rw [CpxSendReq.packet, hreqHead', hreqLength', hreqTail', hpayload, hbytes]
    exact congrArg (CpxPacket.mk · _) hready.header
  rw [streamerSendPacket, hok]
  change (do
    let req ← r.setTail s.packetPayload (packetLength s.remainingLength r.maxTailLength)
    return (req.packet mem,
      (⟨req, s.packetPayload + (packetLength s.remainingLength r.maxTailLength).toNat,
        s.remainingLength - (packetLength s.remainingLength r.maxTailLength).toNat⟩ :
        SendState))) = _
  rw [htail, hlength, hremaining, ← hpacket]
  rfl

theorem streamerSendLoop_done {rounds : Nat} {s : SendState} (h : s.remainingLength ≤ 0) :
    streamerSendLoop mem frameSize checksum (rounds + 1) s = .ok [] := by
  rw [streamerSendLoop, if_neg (not_lt.mpr h)]

/-- The loop ends and sends all that remains. -/
theorem streamerSendLoop_sent (rounds : Nat) {s : SendState} {remaining : Nat}
    (hrounds : remaining < rounds) (hpos : 0 < remaining)
    (hremaining : s.remainingLength = remaining) (haligned : s.packetPayload % 4 = 0)
    (hcapacity : s.cpxReq.payloadCapacity.toNat = sizeofPacket) :
    ∃ packets, streamerSendLoop mem frameSize checksum rounds s = .ok packets ∧
      Sent mem frameSize checksum s.cpxReq.header s.packetPayload remaining packets := by
  induction rounds generalizing s remaining with
  | zero => cases hrounds
  | succ rounds ih =>
    obtain ⟨head, r, hhead, hheader, hrcapacity, hok⟩ :=
      streamerSendPacket_ok mem frameSize checksum hremaining haligned hcapacity
    have hround : streamerSendLoop mem frameSize checksum (rounds + 1) s = do
        let packets ← streamerSendLoop mem frameSize checksum rounds
          ⟨r, s.packetPayload + tailLength remaining (cpxSpiMtu - head.length),
            remaining - tailLength remaining (cpxSpiMtu - head.length)⟩
        return ⟨s.cpxReq.header, head ++ segment mem s.packetPayload
          (tailLength remaining (cpxSpiMtu - head.length))⟩ :: packets := by
      rw [streamerSendLoop, if_pos (by rw [hremaining]; exact_mod_cast hpos), hok]
      rfl
    obtain ⟨hwords, hsmall⟩ := hhead.length
    by_cases hlast : remaining ≤ cpxSpiMtu - head.length
    · obtain ⟨rounds', rfl⟩ := Nat.exists_eq_succ_of_ne_zero (show rounds ≠ 0 by omega)
      have htail : tailLength remaining (cpxSpiMtu - head.length) = (remaining + 3) / 4 * 4 :=
        if_pos hlast
      refine ⟨_, ?_, .last hhead hpos hlast⟩
      rw [hround, htail, streamerSendLoop_done]
      · rfl
      · change (remaining : Int) - ((remaining + 3) / 4 * 4 : Nat) ≤ 0
        omega
    · have htail : tailLength remaining (cpxSpiMtu - head.length) = cpxSpiMtu - head.length :=
        if_neg hlast
      have hmtu : cpxSpiMtu - head.length = 4088 - head.length := rfl
      have hnext : (s.packetPayload + (cpxSpiMtu - head.length)) % 4 = 0 := by
        have hmaxWords : (4088 - head.length) % 4 = 0 := by omega
        rw [hmtu, Nat.add_mod, haligned, hmaxWords]
      have hless : ((remaining - (cpxSpiMtu - head.length) : Nat) : Int) =
          remaining - (cpxSpiMtu - head.length : Nat) := by omega
      rw [htail, ← hless] at hround
      obtain ⟨packets, hrest, hsent⟩ := ih (s := ⟨r, s.packetPayload + (cpxSpiMtu - head.length),
        (remaining - (cpxSpiMtu - head.length) : Nat)⟩) (by omega) (by omega) rfl hnext
        (hrcapacity ▸ hcapacity)
      refine ⟨_, ?_, .more hhead (Nat.lt_of_not_le hlast) (hheader ▸ hsent)⟩
      rw [hround, hrest]
      rfl

end

end AiDeck.Streamer
