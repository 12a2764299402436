import AiDeck.Streamer.Client
import AiDeck.Streamer.ReceiverInvariant

/-! # A buffer from the host to the GAP8

The payloads of `send_buffer` delivered to `streamer_cpx_callback` in order: they complete
the registered buffer once, whatever was received into it before. -/
namespace AiDeck.Streamer
open AiDeck.Lib AiDeck.Lib.Bytes AiDeck.Cpx AiDeck.Crc32 AiDeck.Coroutine

/-- The receive buffer starts with the payload; what is behind it may be anything. -/
structure Holds (req : CpxReceiveReq) (payload : List UInt8) : Prop where
  length : req.payloadLength.toNat = payload.length
  bytes : segment req.payload 0 payload.length = payload

section
variable {req : CpxReceiveReq} {payload : List UInt8}

theorem Holds.slice (h : Holds req payload) {a n : Nat} (hle : a + n ≤ payload.length) :
    segment req.payload a n = (payload.drop a).take n := by
  have hdrop := segment_drop req.payload 0 ((Nat.le_add_right a n).trans hle)
  rw [h.bytes, Nat.zero_add] at hdrop
  rw [hdrop, segment_take req.payload a (by omega)]

theorem Holds.command {c : UInt8} {l : List UInt8} (h : Holds req (c :: l)) : req.command = c := by
  have hle : 0 + 1 ≤ (c :: l).length := Nat.le_add_left 1 l.length
  exact (List.cons.inj (h.slice hle)).1

theorem Holds.begin {c : UInt8} {b : StreamerBegin} {l : List UInt8}
    (h : Holds req (c :: (b.toBytes ++ l))) : req.begin = b := by
  have hle : 1 + 11 ≤ (c :: (b.toBytes ++ l)).length := by
    rw [List.length_cons, List.length_append, StreamerBegin.toBytes_length, Nat.add_comm 1]
    exact Nat.succ_le_succ (Nat.le_add_right _ _)
  rw [CpxReceiveReq.begin]
  refine (congrArg StreamerBegin.ofBytes (h.slice hle)).trans ?_
  rw [List.drop_succ_cons, List.drop_zero, List.take_left' b.toBytes_length]
  exact (congrArg StreamerBegin.ofBytes (List.append_nil _).symm).trans (b.ofBytes_toBytes [])

/-- The segment behind a header. -/
theorem Holds.segment {head l : List UInt8} (h : Holds req (head ++ l)) :
    (req.segmentLength head.length).toNat = l.length ∧ req.segmentFrom head.length = l := by
  have hlength := h.length
  have hsmall := req.payloadLength.toNat_lt
  rw [List.length_append] at hlength
  have hhead : (UInt32.ofNat head.length).toNat = head.length := by
    rw [UInt32.toNat_ofNat', Nat.mod_eq_of_lt (by omega)]
  have hle : UInt32.ofNat head.length ≤ req.payloadLength.toUInt32 := by
    rw [UInt32.le_iff_toNat_le, hhead, UInt16.toNat_toUInt32]
    omega
  have hsegment : (req.segmentLength head.length).toNat = l.length := by
    rw [CpxReceiveReq.segmentLength, UInt32.toNat_sub_of_le _ _ hle, hhead,
      UInt16.toNat_toUInt32]
    omega
  have hwhole : head.length + l.length ≤ (head ++ l).length := List.length_append.ge
  refine ⟨hsegment, ?_⟩
  rw [CpxReceiveReq.segmentFrom, hsegment, h.slice hwhole,
    List.drop_left, List.take_length]

end

/-! ## One packet -/

/-- The first `sent` bytes of the buffer that the host sends have been received. -/
structure PartlyReceived {Task : Type} (bufferType : UInt8) (bytes : List UInt8) (sent : Nat)
    (buffer : StreamerBuffer Task) : Prop where
  type : buffer.type = bufferType
  size : buffer.size.toNat = bytes.length
  checksum : buffer.checksum = crc32 bytes
  receivedSize : buffer.receivedSize.toNat = sent
  received : buffer.received = bytes.take sent

section
variable {Task : Type} {receiveChecksum : Bool} {bufferType : UInt8} {bytes : List UInt8}
  {sent : Nat} {s : StreamerSystem Task} {b : BufferPtr} {doneTask : Task} {req : CpxReceiveReq}
  {buffer : StreamerBuffer Task}

theorem PartlyReceived.bounded (h : PartlyReceived bufferType bytes sent buffer)
    (hsent : sent ≤ bytes.length) (hfits : bytes.length ≤ buffer.storageCapacity.toNat) :
    buffer.Bounded := by
  refine ⟨UInt32.le_iff_toNat_le.mpr ?_, UInt32.le_iff_toNat_le.mpr ?_⟩
  · rw [h.receivedSize, h.size]
    exact hsent
  · rw [h.size]
    exact hfits

/-- The next bytes come. -/
theorem PartlyReceived.copied (h : PartlyReceived bufferType bytes sent buffer)
    (hbounded : buffer.Bounded) {headerLength count : Nat}
    (hlength : (req.segmentLength headerLength).toNat = count)
    (hsegment : req.segmentFrom headerLength = (bytes.drop sent).take count)
    (hcount : sent + count ≤ bytes.length) :
    ¬ req.segmentLength headerLength > buffer.size - buffer.receivedSize ∧
      PartlyReceived bufferType bytes (sent + count) (buffer.copied req headerLength) := by
  have hle : ¬ req.segmentLength headerLength > buffer.size - buffer.receivedSize := by
    rw [gt_iff_lt, UInt32.not_lt, UInt32.le_iff_toNat_le, UInt32.toNat_sub_of_le _ _ hbounded.1,
      hlength, h.size, h.receivedSize]
    omega
  refine ⟨hle, h.type, h.size, h.checksum, ?_, ?_⟩
  · have hsum := (hbounded.fits hle).1
    rw [h.receivedSize, hlength] at hsum
    exact hsum
  · rw [(hbounded.copied hle).2, h.received, hsegment, List.take_add]

theorem PartlyReceived.contents (h : PartlyReceived bufferType bytes bytes.length buffer) :
    segment buffer.storage 0 bytes.length = bytes := by
  have hreceived := h.received
  rw [StreamerBuffer.received, h.receivedSize, List.take_length] at hreceived
  exact hreceived

/-- A whole buffer passes the test of its checksum: a zero says that there is none. -/
theorem PartlyReceived.sound (h : PartlyReceived bufferType bytes bytes.length buffer) :
    ¬ buffer.Corrupted receiveChecksum := by
  rintro ⟨-, hne, hdiffers⟩
  rw [h.size, h.contents, h.checksum] at hdiffers
  rw [h.checksum] at hne
  exact hdiffers (streamerComputeChecksum_eq hne)

/-- What is left of a receive when the buffer is complete. -/
structure Ended (bufferType : UInt8) (bytes : List UInt8) (doneTask : Task)
    (ends : List (ReceiveEnd Task)) (s : StreamerSystem Task) : Prop where
  rx : s.bufferRx = none
  ends : ∃ buffer packets, s.ends = ends ++ [.completed doneTask buffer packets] ∧
    PartlyReceived bufferType bytes bytes.length buffer

/-- A state that waits for the bytes from `sent` on; before the first ones the buffer may be in
any state. -/
structure Ready (bufferType : UInt8) (bytes : List UInt8) (b : BufferPtr) (doneTask : Task)
    (ends : List (ReceiveEnd Task)) (sent : Nat) (s : StreamerSystem Task) : Prop where
  rx : s.bufferRx = some b
  doneTask : (s.buffers b).doneTask = some doneTask
  ends : s.ends = ends
  fits : bytes.length ≤ (s.buffers b).storageCapacity.toNat
  buffer : sent ≠ 0 → PartlyReceived bufferType bytes sent (s.buffers b)

variable {ends : List (ReceiveEnd Task)}

/-- The state after the next `count` bytes. -/
def Next (bufferType : UInt8) (bytes : List UInt8) (b : BufferPtr) (doneTask : Task)
    (ends : List (ReceiveEnd Task)) (sent : Nat) (s : StreamerSystem Task) : Prop :=
  if sent = bytes.length then Ended bufferType bytes doneTask ends s
  else Ready bufferType bytes b doneTask ends sent s

theorem dataReceived_next (hready : Ready bufferType bytes b doneTask ends sent s)
    (hpartly : PartlyReceived bufferType bytes sent (s.buffers b)) {headerLength count : Nat}
    (hhead : streamerPacketHeadLength req.command = .ok headerLength)
    (hlength : (req.segmentLength headerLength).toNat = count)
    (hsegment : req.segmentFrom headerLength = (bytes.drop sent).take count)
    (hcount : sent + count ≤ bytes.length) (hpos : 0 < bytes.length) :
    ∃ t, streamerBufferDataReceived receiveChecksum s req = .ok t ∧
      Next bufferType bytes b doneTask ends (sent + count) t := by
  have hbounded := hpartly.bounded (by omega) hready.fits
  obtain ⟨hle, hcopied⟩ := hpartly.copied hbounded hlength hsegment hcount
  have hsize : ¬ (s.buffers b).size = 0 := by
    intro hzero
    have htoNat := hpartly.size
    rw [hzero] at htoNat
    exact hpos.ne htoNat
  have hbuffer : (s.copy b req headerLength).buffers b = (s.buffers b).copied req headerLength :=
    s.setBuffer_self b _
  rw [streamerBufferDataReceived_some hready.rx hhead, if_neg hsize, if_neg hle]
  simp only [streamerSegmentCopied, hbuffer]
  by_cases hlast : sent + count = bytes.length
  · have hcomplete : ((s.buffers b).copied req headerLength).receivedSize =
        ((s.buffers b).copied req headerLength).size := by
      apply UInt32.toNat_inj.mp
      rw [hcopied.receivedSize, hcopied.size, hlast]
    have hdone : ((s.buffers b).copied req headerLength).doneTask = some doneTask :=
      hready.doneTask
    rw [hlast] at hcopied
    rw [if_pos hcomplete, if_neg hcopied.sound, hdone]
    refine ⟨_, rfl, ?_⟩
    rw [Next, if_pos hlast]
    exact ⟨rfl, _, _, congrArg (· ++ _) hready.ends, hcopied⟩
  · have hmore : ¬ ((s.buffers b).copied req headerLength).receivedSize =
        ((s.buffers b).copied req headerLength).size := by
      intro hcomplete
      have htoNat := congrArg UInt32.toNat hcomplete
      rw [hcopied.receivedSize, hcopied.size] at htoNat
      exact hlast htoNat
    rw [if_neg hmore]
    refine ⟨_, rfl, ?_⟩
    rw [Next, if_neg hlast]
    refine ⟨hready.rx, ?_, hready.ends, ?_, ?_⟩
    · rw [hbuffer]
      exact hready.doneTask
    · rw [hbuffer]
      exact hready.fits
    · intro _
      rw [hbuffer]
      exact hcopied

/-! ## The packets of a buffer -/

/-- The segment that `send_buffer` sends when `sent` bytes are sent. -/
def segmentAt (bytes : List UInt8) (sent : Nat) : List UInt8 :=
  (bytes.drop sent).take (if sent = 0 then maxBufferBeginLength else maxBufferDataLength)

/-- The payload with that segment. -/
def payloadAt (bufferType : UInt8) (bytes : List UInt8) (sent : Nat) : List UInt8 :=
  if sent = 0 then sendBufferBegin bufferType bytes.length (crc32 bytes) (segmentAt bytes sent)
  else sendBufferData (segmentAt bytes sent)

theorem sendBufferLoop_succ (rounds : Nat) (h : sent < bytes.length) :
    sendBufferLoop bufferType bytes (rounds + 1) sent =
      (sendBufferLoop bufferType bytes rounds (sent + (segmentAt bytes sent).length)).map
        (payloadAt bufferType bytes sent :: ·) := by
  rw [sendBufferLoop, if_pos h]
  rfl

theorem segmentAt_spec (h : sent < bytes.length) :
    0 < (segmentAt bytes sent).length ∧ sent + (segmentAt bytes sent).length ≤ bytes.length ∧
      segmentAt bytes sent = (bytes.drop sent).take (segmentAt bytes sent).length := by
  have hlength : (segmentAt bytes sent).length =
      min (if sent = 0 then 4074 else 4082) (bytes.length - sent) := by
    rw [segmentAt, List.length_take, List.length_drop]
    rfl
  refine ⟨?_, ?_, ?_⟩
  · rw [hlength]
    split <;> omega
  · rw [hlength]
    omega
  · rw [segmentAt, List.length_take, ← List.take_take, List.take_length]

/-- Every payload fits `max_payload_length`. -/
theorem payloadAt_length (bufferType : UInt8) (bytes : List UInt8) (sent : Nat) :
    (payloadAt bufferType bytes sent).length ≤ maxPayloadLength := by
  have hlength : (segmentAt bytes sent).length ≤ if sent = 0 then 4074 else 4082 :=
    List.length_take_le _ _
  rw [payloadAt]
  by_cases hfirst : sent = 0
  · rw [if_pos hfirst] at hlength ⊢
    rw [sendBufferBegin, List.length_cons, List.length_append, StreamerBegin.toBytes_length]
    change 11 + (segmentAt bytes sent).length + 1 ≤ 4086
    omega
  · rw [if_neg hfirst] at hlength ⊢
    rw [sendBufferData, List.length_cons, List.length_append]
    change 3 + (segmentAt bytes sent).length + 1 ≤ 4086
    omega

/-- A BUFFER_BEGIN packet of the host starts the buffer anew. -/
theorem begun_ready (hready : Ready bufferType bytes b doneTask ends 0 s)
    (hbegin : req.begin = ⟨bufferType, .ofNat bytes.length, crc32 bytes⟩) :
    ¬ req.begin.size > (s.buffers b).storageCapacity ∧
      Ready bufferType bytes b doneTask ends 0
        (s.setBuffer b ((s.buffers b).begun req.begin)) ∧
      PartlyReceived bufferType bytes 0
        ((s.setBuffer b ((s.buffers b).begun req.begin)).buffers b) := by
  have hfits := hready.fits
  have hcapacity := (s.buffers b).storageCapacity.toNat_lt
  have hsize : req.begin.size.toNat = bytes.length := by
    rw [hbegin, UInt32.toNat_ofNat', Nat.mod_eq_of_lt (by omega)]
  rw [s.setBuffer_self]
  refine ⟨?_, ⟨hready.rx, ?_, hready.ends, ?_, fun hne => absurd rfl hne⟩, ?_⟩
  · rw [gt_iff_lt, UInt32.not_lt, UInt32.le_iff_toNat_le, hsize]
    exact hfits
  · rw [s.setBuffer_self]
    exact hready.doneTask
  · rw [s.setBuffer_self]
    exact hfits
  · refine ⟨?_, hsize, ?_, rfl, rfl⟩
    · exact congrArg StreamerBegin.type hbegin
    · exact congrArg StreamerBegin.checksum hbegin

/-- The callback takes the next payload. -/
theorem callback_next (receiveChecksum : Bool)
    (hready : Ready bufferType bytes b doneTask ends sent s)
    (hsent : sent < bytes.length) (hreq : Holds req (payloadAt bufferType bytes sent)) :
    ∃ t, streamerCpxCallback receiveChecksum (s.log req) req = .ok t ∧
      Next bufferType bytes b doneTask ends (sent + (segmentAt bytes sent).length) t := by
  obtain ⟨hpos, hcount, hsegment⟩ := segmentAt_spec hsent
  have hlog : Ready bufferType bytes b doneTask ends sent (s.log req) :=
    ⟨hready.rx, hready.doneTask, hready.ends, hready.fits, hready.buffer⟩
  by_cases hfirst : sent = 0
  · subst hfirst
    rw [payloadAt, if_pos rfl, sendBufferBegin] at hreq
    have hcommand := hreq.command
    obtain ⟨hroom, hbegun, hpartly⟩ := begun_ready hlog hreq.begin
    rw [← List.cons_append] at hreq
    obtain ⟨hlength, hfrom⟩ := hreq.segment
    rw [streamerCpxCallback, if_pos hcommand, streamerBufferBeginReceived_some hlog.rx,
      if_neg hroom]
    exact dataReceived_next hbegun hpartly (streamerPacketHeadLength_begin hcommand) hlength
      (hfrom.trans hsegment) hcount hsent
  · rw [payloadAt, if_neg hfirst, sendBufferData, ← List.cons_append] at hreq
    have hcommand := hreq.command
    obtain ⟨hlength, hfrom⟩ := hreq.segment
    have hnot : ¬ req.command = cmdBufferBegin := fun hbegin => begin_ne_data hbegin hcommand
    rw [streamerCpxCallback, if_neg hnot, if_pos hcommand]
    exact dataReceived_next hlog (hready.buffer hfirst) (streamerPacketHeadLength_data hcommand)
      hlength (hfrom.trans hsegment) hcount (by omega)

/-! ## All packets -/

/-- Packets that reach the callback in order. -/
def deliverAll (receiveChecksum : Bool) (s : StreamerSystem Task) (reqs : List CpxReceiveReq) :
    Except Stop (StreamerSystem Task) :=
  reqs.foldlM (fun s req => StreamerAction.run receiveChecksum s (.deliver req)) s

theorem deliverAll_cons {t : StreamerSystem Task} {reqs : List CpxReceiveReq}
    (h : streamerCpxCallback receiveChecksum (s.log req) req = .ok t) :
    deliverAll receiveChecksum s (req :: reqs) = deliverAll receiveChecksum t reqs := by
  rw [deliverAll, List.foldlM_cons, StreamerAction.run, h]
  rfl

/-- The loop ends; its payloads leave the receive registered until the last one ends it. -/
theorem sendBufferLoop_received (rounds : Nat) (hrounds : bytes.length < rounds + sent)
    (hsent : sent < bytes.length) :
    ∃ payloads last, sendBufferLoop bufferType bytes rounds sent = some (payloads ++ [last]) ∧
      (∀ payload ∈ payloads ++ [last], payload.length ≤ maxPayloadLength) ∧
      ∀ s reqs req, Ready bufferType bytes b doneTask ends sent s →
        List.Forall₂ Holds reqs payloads → Holds req last →
        ∃ t u, deliverAll receiveChecksum s reqs = .ok t ∧
          (t.bufferRx = some b ∧ t.ends = ends) ∧
          deliverAll receiveChecksum t [req] = .ok u ∧ Ended bufferType bytes doneTask ends u := by
  induction rounds generalizing sent with
  | zero => omega
  | succ rounds ih =>
    obtain ⟨hpos, hcount, -⟩ := segmentAt_spec hsent
    rw [sendBufferLoop_succ rounds hsent]
    by_cases hlast : sent + (segmentAt bytes sent).length = bytes.length
    · obtain ⟨rounds', rfl⟩ := Nat.exists_eq_succ_of_ne_zero (show rounds ≠ 0 by omega)
      refine ⟨[], payloadAt bufferType bytes sent, ?_, ?_, ?_⟩
      · rw [sendBufferLoop, if_neg (by omega)]
        rfl
      · intro payload hpayload
        obtain rfl := List.mem_singleton.mp hpayload
        exact payloadAt_length _ _ _
      · intro s reqs req hready hreqs hreq
        cases hreqs
        obtain ⟨u, hu, hnext⟩ := callback_next receiveChecksum hready hsent hreq
        rw [Next, if_pos hlast] at hnext
        exact ⟨s, u, rfl, ⟨hready.rx, hready.ends⟩, deliverAll_cons hu, hnext⟩
    · have hmore : sent + (segmentAt bytes sent).length < bytes.length := by omega
      obtain ⟨payloads, last, hloop, hfits, hdeliver⟩ := ih (by omega) hmore
      refine ⟨payloadAt bufferType bytes sent :: payloads, last, ?_, ?_, ?_⟩
      · rw [hloop]
        rfl
      · intro payload hpayload
        rcases List.mem_cons.mp hpayload with rfl | hpayload
        · exact payloadAt_length _ _ _
        · exact hfits payload hpayload
      · intro s reqs req hready hreqs hreq
        cases hreqs with
        | @cons first _ rest _ hfirst hrest =>
          obtain ⟨v, hv, hnext⟩ :=
            callback_next receiveChecksum hready hsent hfirst
          rw [Next, if_neg hlast] at hnext
          obtain ⟨t, u, ht, hwaiting, hu, hended⟩ := hdeliver v rest req hnext hrest hreq
          exact ⟨t, u, (deliverAll_cons hv).trans ht, hwaiting, hu, hended⟩

/-- **A buffer sent by the host arrives.** `send_buffer` ends and its payloads fit; delivered in
order to a streamer in any state with a registered buffer that is big enough, the last one, and
only that one, completes the buffer. -/
theorem buffer_received (receiveChecksum : Bool) (bufferType : UInt8) (hpos : 1 ≤ bytes.length)
    (h : (streamerReceiver Task receiveChecksum fun _ _ => True).Reachable s)
    (hrx : s.bufferRx = some b) (hfits : bytes.length ≤ (s.buffers b).storageCapacity.toNat) :
    ∃ payloads last, sendBuffer bufferType bytes = some (payloads ++ [last]) ∧
      (∀ payload ∈ payloads ++ [last], payload.length ≤ maxPayloadLength) ∧
      ∀ reqs req, List.Forall₂ Holds reqs payloads → Holds req last →
        ∃ doneTask t u packets, ∃ buffer : StreamerBuffer Task, s.outstanding = some doneTask ∧
          deliverAll receiveChecksum s reqs = .ok t ∧ t.bufferRx = some b ∧ t.ends = s.ends ∧
          deliverAll receiveChecksum t [req] = .ok u ∧ u.bufferRx = none ∧
          u.ends = s.ends ++ [.completed doneTask buffer packets] ∧ buffer.type = bufferType ∧
          buffer.size.toNat = bytes.length ∧ segment buffer.storage 0 bytes.length = bytes := by
  obtain ⟨hinv, -⟩ := reachable_receiverInv (R := fun capacity p => p.begin.size > capacity)
    (fun _ _ _ _ _ _ _ htooBig => htooBig) h
  obtain ⟨doneTask, hdone, -⟩ := hinv.registered b hrx
  have hready : Ready bufferType bytes b doneTask s.ends 0 s :=
    ⟨hrx, hdone, rfl, hfits, fun hne => absurd rfl hne⟩
  obtain ⟨payloads, last, hloop, hlength, hdeliver⟩ :=
    sendBufferLoop_received (bytes.length + 1) (Nat.lt_succ_self _) hpos
  refine ⟨payloads, last, hloop, hlength, ?_⟩
  intro reqs req hreqs hreq
  obtain ⟨t, u, ht, hwaiting, hu, hended⟩ := hdeliver s reqs req hready hreqs hreq
  obtain ⟨buffer, packets, hends, hbuffer⟩ := hended.ends
  refine ⟨doneTask, t, u, packets, buffer, ?_, ht, hwaiting.1, hwaiting.2, hu, hended.rx, hends,
    hbuffer.type, hbuffer.size, hbuffer.contents⟩
  rw [StreamerSystem.outstanding, hrx]
  exact hdone

theorem holds_ofPayload {payload : List UInt8} (h : payload.length ≤ maxPayloadLength)
    (tail : Nat → UInt8) : Holds (.ofPayload payload tail) payload := by
  refine ⟨?_, segment_feed payload tail⟩
  have hsmall : payload.length ≤ 4086 := h
  exact (UInt16.toNat_ofNat').trans (Nat.mod_eq_of_lt (by omega))

end

/-- Three bytes, for a buffer that holds two bytes of an abandoned one. -/
theorem buffer_received_three :
    ∃ (s t u : StreamerSystem Nat) (payloads : List (List UInt8)) (last : List UInt8),
      (s.buffers 5).received = [1, 2] ∧ sendBuffer 2 [5, 6, 7] = some (payloads ++ [last]) ∧
      deliverAll true s (payloads.map fun payload => .ofPayload payload fun _ => 0) = .ok t ∧
      t.ends = s.ends ∧ deliverAll true t [.ofPayload last fun _ => 0] = .ok u ∧
      ∃ packets, ∃ buffer : StreamerBuffer Nat,
        u.ends = s.ends ++ [.completed 1 buffer packets] ∧
        segment buffer.storage 0 3 = [5, 6, 7] := by
  have hrun : ∃ s : StreamerSystem Nat,
      Transition.follow (fun s a => StreamerAction.Enabled s a ∧ True)
        (StreamerAction.run true) (.initial Nat)
        [.init 5 (fun _ => 0) 8, .receive 5 (some 1),
          .deliver (.ofBegin ⟨typeImage, 4, 0⟩ [1, 2] fun _ => 0)] = some s ∧
      s.bufferRx = some 5 ∧ (s.buffers 5).storageCapacity = 8 ∧ s.outstanding = some 1 ∧
      (s.buffers 5).received = [1, 2] := ⟨_, rfl, rfl, rfl, rfl, rfl⟩
  obtain ⟨s, hfollow, hrx, hcapacity, hdone, hreceived⟩ := hrun
  have hfits : ([5, 6, 7] : List UInt8).length ≤ (s.buffers 5).storageCapacity.toNat := by
    rw [hcapacity]
    decide
  have hpos : 1 ≤ ([5, 6, 7] : List UInt8).length := by decide
  obtain ⟨payloads, last, hsend, hlength, hdeliver⟩ :=
    buffer_received true 2 hpos (streamerReceiver_follow hfollow) hrx hfits
  have hreqs : List.Forall₂ Holds (payloads.map fun payload => .ofPayload payload fun _ => 0)
      payloads := by
    rw [List.forall₂_map_left_iff, List.forall₂_same]
    intro payload hpayload
    exact holds_ofPayload (hlength payload (List.mem_append_left _ hpayload)) _
  have hreq := holds_ofPayload (hlength last (List.mem_append_right _ (List.mem_singleton_self _)))
    fun _ => 0
  obtain ⟨doneTask, t, u, packets, buffer, hdone', ht, -, htends, hu, -, huends, -, -, hcontents⟩ :=
    hdeliver _ _ hreqs hreq
  obtain rfl := Option.some.inj (hdone.symm.trans hdone')
  exact ⟨s, t, u, payloads, last, hreceived, hsend, ht, htends, hu, packets, buffer, huends,
    hcontents⟩

end AiDeck.Streamer
