import AiDeck.Streamer.Client
import AiDeck.Streamer.Send

/-! # A frame from the GAP8 to the host

The packets of `streamer_send_task` given to `receive` in order: the frame is processed
once, whatever was received before, if no checksum is sent. With a checksum the two sides
disagree on the frames whose CRC-32 is zero. -/
namespace AiDeck.Streamer
open AiDeck.Lib.Bytes AiDeck.Cpx AiDeck.Crc32 AiDeck.Host

/-- The packet has this head and whole words behind it, as many as fit at most. -/
def HasHead (p : CpxPacket) (head : List UInt8) : Prop :=
  ∃ tail : List UInt8, p.payload = head ++ tail ∧ tail.length % 4 = 0 ∧
    tail.length ≤ cpxSpiMtu - head.length

/-- A BUFFER_BEGIN packet with the fields `b`. -/
def IsBegin (b : StreamerBegin) (p : CpxPacket) : Prop :=
  p.header.function = cpxFStreamer ∧ HasHead p (cmdBufferBegin :: b.toBytes)

/-- A BUFFER_DATA packet. -/
def IsData (p : CpxPacket) : Prop :=
  p.header.function = cpxFStreamer ∧
    ∃ padding : List UInt8, padding.length = sizeofData ∧ HasHead p (cmdBufferData :: padding)

/-- A frame that can be sent: its address is aligned, its size positive and a `ssize_t`. -/
structure Sendable (cpxReq : CpxSendReq) (payload : Ptr) (frameSize : Nat) : Prop where
  request : IsStreamerReq cpxReq
  aligned : payload % 4 = 0
  pos : 1 ≤ frameSize
  size : frameSize < 2 ^ 31

theorem Sendable.function {cpxReq : CpxSendReq} {payload : Ptr} {frameSize : Nat}
    (h : Sendable cpxReq payload frameSize) : cpxReq.header.function = cpxFStreamer := by
  rw [h.request.header]
  rfl

/-- The size field holds every `ssize_t`. -/
theorem toNat_size {frameSize : Nat} (h : frameSize < 2 ^ 31) :
    (UInt32.ofNat frameSize).toNat = frameSize := by
  rw [UInt32.toNat_ofNat', Nat.mod_eq_of_lt (by omega)]

section
variable {mem : Nat → UInt8} {frameSize remaining : Nat} {checksum : UInt32} {header : CpxHeader}
  {p : Ptr} {packets : List CpxPacket}

theorem IsHead.hasHead_last {head : List UInt8} (h : IsHead frameSize checksum remaining head)
    (hle : remaining ≤ cpxSpiMtu - head.length) :
    HasHead ⟨header, head ++ segment mem p ((remaining + 3) / 4 * 4)⟩ head := by
  obtain ⟨hwords, hsmall⟩ := h.length
  have hroom : remaining ≤ 4088 - head.length := hle
  refine ⟨_, rfl, ?_, ?_⟩
  · rw [segment_length, Nat.mul_mod_left]
  · rw [segment_length]
    change (remaining + 3) / 4 * 4 ≤ 4088 - head.length
    omega

theorem IsHead.hasHead_more {head : List UInt8} (h : IsHead frameSize checksum remaining head) :
    HasHead ⟨header, head ++ segment mem p (cpxSpiMtu - head.length)⟩ head := by
  obtain ⟨hwords, hsmall⟩ := h.length
  refine ⟨_, rfl, ?_, by rw [segment_length]⟩
  rw [segment_length]
  change (4088 - head.length) % 4 = 0
  omega

theorem IsHead.isBegin {head : List UInt8} {q : CpxPacket}
    (h : IsHead frameSize checksum frameSize head) (hfunction : q.header.function = cpxFStreamer)
    (hq : HasHead q head) : IsBegin ⟨typeImage, .ofNat frameSize, checksum⟩ q := by
  rw [IsHead, if_pos rfl] at h
  exact ⟨hfunction, h ▸ hq⟩

theorem IsHead.isData {head : List UInt8} {q : CpxPacket}
    (h : IsHead frameSize checksum remaining head) (hlt : remaining < frameSize)
    (hfunction : q.header.function = cpxFStreamer) (hq : HasHead q head) : IsData q := by
  rw [IsHead, if_neg hlt.ne] at h
  obtain ⟨padding, hpadding, rfl⟩ := h
  exact ⟨hfunction, padding, hpadding, hq⟩

theorem Sent.isData (h : Sent mem frameSize checksum header p remaining packets)
    (hfunction : header.function = cpxFStreamer) (hlt : remaining < frameSize) :
    ∀ q ∈ packets, IsData q := by
  induction h with
  | last hhead hpos hle =>
    intro q hq
    obtain rfl := List.mem_singleton.mp hq
    exact hhead.isData hlt hfunction (hhead.hasHead_last hle)
  | more hhead hroom rest ih =>
    intro q hq
    rcases List.mem_cons.mp hq with rfl | hq
    · exact hhead.isData hlt hfunction hhead.hasHead_more
    · exact ih (lt_of_le_of_lt (Nat.sub_le _ _) hlt) q hq

/-- A frame goes out as one BUFFER_BEGIN packet and then BUFFER_DATA packets. -/
theorem Sent.isBegin (h : Sent mem frameSize checksum header p frameSize packets)
    (hfunction : header.function = cpxFStreamer) :
    ∃ first rest, packets = first :: rest ∧ IsBegin ⟨typeImage, .ofNat frameSize, checksum⟩ first ∧
      ∀ q ∈ rest, IsData q := by
  cases h with
  | @last _ _ head hhead hpos hle =>
    refine ⟨_, [], rfl, hhead.isBegin hfunction (hhead.hasHead_last hle), ?_⟩
    intro q hq
    cases hq
  | @more _ _ head packets hhead hroom rest =>
    have hlt : frameSize - (cpxSpiMtu - head.length) < frameSize := by
      have hsmall := hhead.length.2
      have hmore : 4088 - head.length < frameSize := hroom
      change frameSize - (4088 - head.length) < frameSize
      omega
    exact ⟨_, packets, rfl, hhead.isBegin hfunction hhead.hasHead_more, rest.isData hfunction hlt⟩

end

section
variable {mem : Nat → UInt8} {frameSize remaining : Nat} {checksum : UInt32} {header : CpxHeader}
  {p : Ptr} {packets : List CpxPacket} {raises : UInt8 → List UInt8 → Bool} {g : ClientGenerator}

/-- The packets behind the first one: they end the frame. -/
theorem Sent.received (h : Sent mem frameSize checksum header p remaining packets)
    (hfunction : header.function = cpxFStreamer) (hlt : remaining < frameSize)
    {rxBuffer : List UInt8}
    (hvars : g.vars = some (receiving rxBuffer typeImage remaining checksum)) :
    packets.foldl (receivePacket raises) g =
      g.finish raises typeImage checksum (rxBuffer ++ segment mem p remaining) := by
  induction h generalizing g rxBuffer with
  | @last p remaining head hhead hpos hle =>
    rw [IsHead, if_neg hlt.ne] at hhead
    obtain ⟨padding, hpadding, rfl⟩ := hhead
    have hround : remaining ≤ (remaining + 3) / 4 * 4 := by omega
    have hlength : remaining ≤ (segment mem p ((remaining + 3) / 4 * 4)).length :=
      hround.trans_eq (segment_length _ _ _).symm
    rw [List.foldl_cons, List.foldl_nil, receivePacket_streamer hvars hfunction,
      List.cons_append, receiveStreamer_data _ hpadding, chunk_last hlength,
      segment_take mem p hround]
  | @more p remaining head packets hhead hroom rest ih =>
    rw [IsHead, if_neg hlt.ne] at hhead
    obtain ⟨padding, hpadding, rfl⟩ := hhead
    have hlength : (segment mem p (cpxSpiMtu - (cmdBufferData :: padding).length)).length <
        remaining := by
      rw [segment_length]
      exact hroom
    have hsplit : remaining = (cpxSpiMtu - (cmdBufferData :: padding).length) +
        (remaining - (cpxSpiMtu - (cmdBufferData :: padding).length)) :=
      (Nat.add_sub_of_le hroom.le).symm
    rw [List.foldl_cons, receivePacket_streamer hvars hfunction, List.cons_append,
      receiveStreamer_data _ hpadding, chunk_more hlength, segment_length,
      ih (lt_of_le_of_lt (Nat.sub_le _ _) hlt) rfl, List.append_assoc, ← segment_add, ← hsplit]
    rfl

/-- The host ends a frame with the last of its packets, whatever it has received before. -/
theorem Sent.received_first (h : Sent mem frameSize checksum header p frameSize packets)
    (hfunction : header.function = cpxFStreamer) (hsize : frameSize < 2 ^ 31)
    {vars : ClientState} (hvars : g.vars = some vars) :
    packets.foldl (receivePacket raises) g =
      g.finish raises typeImage checksum (segment mem p frameSize) := by
  have hwhole := toNat_size hsize
  cases h with
  | @last _ _ head hhead hpos hle =>
    rw [IsHead, if_pos rfl] at hhead
    subst hhead
    have hround : frameSize ≤ (frameSize + 3) / 4 * 4 := by omega
    have hlength : frameSize ≤ (segment mem p ((frameSize + 3) / 4 * 4)).length :=
      hround.trans_eq (segment_length _ _ _).symm
    rw [List.foldl_cons, List.foldl_nil, receivePacket_streamer hvars hfunction,
      List.cons_append, receiveStreamer_begin, hwhole, chunk_last hlength,
      segment_take mem p hround, List.nil_append]
  | @more _ _ head packets hhead hroom rest =>
    rw [IsHead, if_pos rfl] at hhead
    subst hhead
    have hmore : 4076 < frameSize := hroom
    have hlength : (segment mem p 4076).length < frameSize := by rwa [segment_length]
    have hsplit : frameSize = 4076 + (frameSize - 4076) := by omega
    have hlt : frameSize - 4076 < frameSize := by omega
    rw [List.foldl_cons, receivePacket_streamer hvars hfunction, List.cons_append,
      receiveStreamer_begin, hwhole]
    change packets.foldl _ (g.chunk raises _ (segment mem p 4076)) = _
    rw [chunk_more hlength, segment_length, rest.received hfunction hlt rfl, List.nil_append]
    change g.finish raises typeImage checksum (segment mem p 4076 ++
      segment mem (p + 4076) (frameSize - 4076)) = _
    rw [← segment_add, ← hsplit]

/-- The task ends without a failed assertion, and the host receives the whole frame. -/
theorem streamerSendTask_received {cpxReq : CpxSendReq} {payload : Ptr} (sendChecksum : Bool)
    (mem : Nat → UInt8) (h : Sendable cpxReq payload frameSize) {checksum : UInt32}
    (hchecksum : (if sendChecksum then streamerComputeChecksum (segment mem payload frameSize)
      else 0) = checksum) :
    ∃ packets, streamerSendTask sendChecksum mem cpxReq payload frameSize = .ok packets ∧
      Sent mem frameSize checksum cpxReq.header payload frameSize packets ∧
      ∀ raises g vars, g.vars = some vars → packets.foldl (receivePacket raises) g =
        g.finish raises typeImage checksum (segment mem payload frameSize) := by
  subst hchecksum
  obtain ⟨packets, hok, hsent⟩ := streamerSendLoop_sent (s := ⟨cpxReq, payload, frameSize⟩)
    (frameSize + 1) (Nat.lt_succ_self _) h.pos rfl h.aligned h.request.capacity
  refine ⟨packets, hok, hsent, ?_⟩
  intro raises g vars hvars
  exact hsent.received_first h.function h.size hvars

end

theorem exists_streamerReq : ∃ cpxReq, IsStreamerReq cpxReq := by
  have haligned : (4 : Ptr) % 4 = 0 := rfl
  obtain ⟨cpxReq, -, h⟩ := streamerInit_ok haligned (by decide) haligned fun _ => 0
  exact ⟨cpxReq, h⟩

section
variable (mem : Nat → UInt8) {cpxReq : CpxSendReq} {payload : Ptr} {frameSize : Nat}

/-- **A frame sent without a checksum arrives.** The task ends, sends one BUFFER_BEGIN packet
with the size and then BUFFER_DATA packets; from any state of `receive` they make one call of
`process_buffer`, with the bytes of the frame. -/
theorem frame_received (h : Sendable cpxReq payload frameSize) :
    ∃ first rest b, streamerSendTask false mem cpxReq payload frameSize = .ok (first :: rest) ∧
      IsBegin b first ∧ b.type = typeImage ∧ b.size.toNat = frameSize ∧ b.checksum = 0 ∧
      (∀ p ∈ rest, IsData p) ∧
      ∀ raises g vars, g.vars = some vars →
        ((first :: rest).foldl (receivePacket raises) g).calls =
          g.calls ++ [(typeImage, segment mem payload frameSize)] := by
  obtain ⟨packets, hok, hsent, hreceived⟩ := streamerSendTask_received false mem h rfl
  obtain ⟨first, rest, rfl, hbegin, hdata⟩ := hsent.isBegin h.function
  refine ⟨first, rest, _, hok, hbegin, rfl, toNat_size h.size, rfl, hdata, ?_⟩
  intro raises g vars hvars
  rw [hreceived raises g vars hvars, ClientGenerator.finish, if_neg]
  · rfl
  · intro hcorrupted
    exact hcorrupted.1 rfl

/-- Five bytes, in a packet with eight, and a client that has just started. -/
theorem frame_received_five :
    ∃ cpxReq first rest,
      streamerSendTask false (fun i => .ofNat i) cpxReq 4 5 = .ok (first :: rest) ∧
      (clientReceive (fun _ _ => false) (first :: rest)).calls = [(typeImage, [4, 5, 6, 7, 8])] := by
  obtain ⟨cpxReq, hreq⟩ := exists_streamerReq
  have h : Sendable cpxReq 4 5 := ⟨hreq, rfl, by decide, by decide⟩
  obtain ⟨first, rest, b, hok, -, -, -, -, -, hcalls⟩ := frame_received (fun i => .ofNat i) h
  exact ⟨cpxReq, first, rest, hok, hcalls _ ⟨some .reset, []⟩ .reset rfl⟩

/-- **A checksum is accepted unless it is zero.** The client compares what it computes with
the all ones that the sender puts in place of zero. -/
theorem checksum_accepted_iff (h : Sendable cpxReq payload frameSize) :
    ∃ packets, streamerSendTask true mem cpxReq payload frameSize = .ok packets ∧
      ∀ raises g vars, g.vars = some vars →
        ((packets.foldl (receivePacket raises) g).calls =
            g.calls ++ [(typeImage, segment mem payload frameSize)] ↔
          crc32 (segment mem payload frameSize) ≠ 0) := by
  obtain ⟨packets, hok, -, hreceived⟩ := streamerSendTask_received true mem h (if_pos rfl)
  refine ⟨packets, hok, ?_⟩
  intro raises g vars hvars
  rw [hreceived raises g vars hvars, ClientGenerator.finish]
  by_cases hzero : crc32 (segment mem payload frameSize) = 0
  · have hcorrupted : streamerComputeChecksum (segment mem payload frameSize) ≠ 0 ∧
        crc32 (segment mem payload frameSize) ≠
          streamerComputeChecksum (segment mem payload frameSize) := by
      refine ⟨streamerComputeChecksum_ne _, ?_⟩
      rw [hzero]
      exact (streamerComputeChecksum_ne _).symm
    rw [if_pos hcorrupted]
    refine iff_of_false ?_ (not_not.mpr hzero)
    intro hcalls
    exact List.cons_ne_nil _ _ (List.self_eq_append_right.mp hcalls)
  · have heq := streamerComputeChecksum_eq hzero
    rw [if_neg (fun hcorrupted => hcorrupted.2 heq.symm)]
    exact iff_of_true rfl hzero

/-- A checksum that is not zero. -/
theorem checksum_accepted_four :
    ∃ cpxReq packets, streamerSendTask true (fun i => .ofNat i) cpxReq 4 4 = .ok packets ∧
      (clientReceive (fun _ _ => false) packets).calls = [(typeImage, [4, 5, 6, 7])] := by
  obtain ⟨cpxReq, hreq⟩ := exists_streamerReq
  have h : Sendable cpxReq 4 4 := ⟨hreq, rfl, by decide, by decide⟩
  obtain ⟨packets, hok, hcalls⟩ := checksum_accepted_iff (fun i => .ofNat i) h
  refine ⟨cpxReq, packets, hok, (hcalls (fun _ _ => false) ⟨some .reset, []⟩ .reset rfl).mpr ?_⟩
  rw [crc32_eq]
  decide +kernel

/-- Four bytes whose CRC-32 is zero, sent as they should be and never processed. -/
theorem zero_checksum_rejected :
    ∃ cpxReq packets, Sendable cpxReq 0 4 ∧
      streamerSendTask true (feed [0x9d, 0x0a, 0xd9, 0x6d] fun _ => 0) cpxReq 0 4 = .ok packets ∧
      (clientReceive (fun _ _ => false) packets).calls = [] := by
  obtain ⟨cpxReq, hreq⟩ := exists_streamerReq
  have h : Sendable cpxReq 0 4 := ⟨hreq, rfl, by decide, by decide⟩
  have hsegment : segment (feed [0x9d, 0x0a, 0xd9, 0x6d] fun _ => (0 : UInt8)) 0 4 =
      [0x9d, 0x0a, 0xd9, 0x6d] := segment_feed _ _
  have hzero : crc32 [0x9d, 0x0a, 0xd9, 0x6d] = 0 := by
    rw [crc32_eq]
    decide +kernel
  have hchecksum : streamerComputeChecksum [0x9d, 0x0a, 0xd9, 0x6d] = 0xFFFFFFFF := by
    rw [streamerComputeChecksum, hzero]
    rfl
  obtain ⟨packets, hok, -, hreceived⟩ := streamerSendTask_received true
    (feed [0x9d, 0x0a, 0xd9, 0x6d] fun _ => 0) h (if_pos rfl)
  refine ⟨cpxReq, packets, h, hok, ?_⟩
  rw [clientReceive, hreceived _ ⟨some .reset, []⟩ .reset rfl, hsegment, hchecksum,
    ClientGenerator.finish, if_pos]
  · rfl
  · rw [hzero]
    decide

end

end AiDeck.Streamer
