import AiDeck.Streamer.Receiver

/-! # What holds in every run of the receiver

Each packet is ignored, drops the registered buffer, or is copied behind what the buffer
holds; the last copy ends the receive. -/
namespace AiDeck.Streamer
open AiDeck.Lib AiDeck.Lib.Bytes AiDeck.Cpx AiDeck.Coroutine

/-- The bytes a packet adds to the buffer. -/
def CpxReceiveReq.segment (p : CpxReceiveReq) : List UInt8 :=
  match streamerPacketHeadLength p.command with
  | .ok headerLength => p.segmentFrom headerLength
  | .error _ => []

theorem CpxReceiveReq.segment_eq {p : CpxReceiveReq} {headerLength : Nat}
    (h : streamerPacketHeadLength p.command = .ok headerLength) :
    p.segment = p.segmentFrom headerLength := by
  rw [segment, h]

/-- The BUFFER_DATA packets of a list. -/
def dataPackets (packets : List CpxReceiveReq) : List CpxReceiveReq :=
  packets.filter fun p => p.command = cmdBufferData

theorem dataPackets_data {packets : List CpxReceiveReq} {p : CpxReceiveReq}
    (h : p.command = cmdBufferData) : dataPackets (packets ++ [p]) = dataPackets packets ++ [p] := by
  simp [dataPackets, h]

theorem dataPackets_other {packets : List CpxReceiveReq} {p : CpxReceiveReq}
    (h : p.command ≠ cmdBufferData) : dataPackets (packets ++ [p]) = dataPackets packets := by
  simp [dataPackets, h]

namespace StreamerBuffer
variable {Task : Type} {buffer : StreamerBuffer Task}

def Bounded (buffer : StreamerBuffer Task) : Prop :=
  buffer.receivedSize ≤ buffer.size ∧ buffer.size ≤ buffer.storageCapacity

theorem dropped_bounded (buffer : StreamerBuffer Task) : buffer.dropped.Bounded :=
  ⟨UInt32.le_refl _, UInt32.zero_le⟩

/-- A segment that fits into what remains. -/
theorem Bounded.fits (h : buffer.Bounded) {length : UInt32}
    (hle : ¬ length > buffer.size - buffer.receivedSize) :
    (buffer.receivedSize + length).toNat = buffer.receivedSize.toNat + length.toNat ∧
      buffer.receivedSize.toNat + length.toNat ≤ buffer.size.toNat := by
  have hreceived := UInt32.le_iff_toNat_le.mp h.1
  have hlength := UInt32.le_iff_toNat_le.mp (UInt32.not_lt.mp hle)
  have hsize := buffer.size.toNat_lt
  rw [UInt32.toNat_sub_of_le _ _ h.1] at hlength
  rw [UInt32.toNat_add]
  omega

theorem Bounded.copied (h : buffer.Bounded) {p : CpxReceiveReq} {headerLength : Nat}
    (hle : ¬ p.segmentLength headerLength > buffer.size - buffer.receivedSize) :
    (buffer.copied p headerLength).Bounded ∧
      (buffer.copied p headerLength).received = buffer.received ++ p.segmentFrom headerLength := by
  obtain ⟨hsum, hsize⟩ := h.fits hle
  have hlength : (p.segmentFrom headerLength).length = (p.segmentLength headerLength).toNat :=
    segment_length _ _ _
  refine ⟨⟨UInt32.le_iff_toNat_le.mpr (hsum ▸ hsize), h.2⟩, ?_⟩
  change Bytes.segment (overwrite buffer.storage buffer.receivedSize.toNat _) 0
    (buffer.receivedSize + p.segmentLength headerLength).toNat = _
  rw [hsum, segment_add, Nat.zero_add,
    segment_overwrite_disjoint _ _ (.inl (Nat.zero_add _).le), ← hlength, segment_overwrite]
  rfl

end StreamerBuffer

/-! ## Where the bytes of a buffer come from -/

/-- The fields of the buffer are those of the BUFFER_BEGIN packet `first`, its bytes the
segments of `first` and of the BUFFER_DATA packets in `rest`; a BUFFER_BEGIN packet in `rest` is
one of those that `R` describes. -/
structure ReceivedFrom {Task : Type} (R : UInt32 → CpxReceiveReq → Prop) (first : CpxReceiveReq)
    (rest : List CpxReceiveReq) (buffer : StreamerBuffer Task) : Prop where
  command : first.command = cmdBufferBegin
  type : buffer.type = first.begin.type
  size : buffer.size = first.begin.size
  checksum : buffer.checksum = first.begin.checksum
  others : ∀ p ∈ rest, p.command = cmdBufferBegin → R buffer.storageCapacity p
  received : buffer.received = (first :: dataPackets rest).flatMap CpxReceiveReq.segment

/-- The buffer was received from the last packets of the list. -/
def HasOrigin {Task : Type} (R : UInt32 → CpxReceiveReq → Prop) (packets : List CpxReceiveReq)
    (buffer : StreamerBuffer Task) : Prop :=
  ∃ earlier first rest, packets = earlier ++ first :: rest ∧ ReceivedFrom R first rest buffer

section
variable {Task : Type} {R : UInt32 → CpxReceiveReq → Prop} {packets : List CpxReceiveReq}
  {buffer : StreamerBuffer Task} {p : CpxReceiveReq}

theorem HasOrigin.begin (hcommand : p.command = cmdBufferBegin)
    (hle : ¬ p.segmentLength 12 > (buffer.begun p.begin).size - (buffer.begun p.begin).receivedSize)
    (hsize : ¬ p.begin.size > buffer.storageCapacity) :
    HasOrigin R (packets ++ [p]) ((buffer.begun p.begin).copied p 12) := by
  have hbounded : (buffer.begun p.begin).Bounded := ⟨UInt32.zero_le, UInt32.not_lt.mp hsize⟩
  have hhead := streamerPacketHeadLength_begin hcommand
  refine ⟨packets, p, [], rfl, hcommand, rfl, rfl, rfl, ?_, ?_⟩
  · intro q hq
    cases hq
  · rw [(hbounded.copied hle).2]
    change [] ++ p.segmentFrom 12 = p.segment ++ []
    rw [List.nil_append, List.append_nil, p.segment_eq hhead]

theorem HasOrigin.data (h : HasOrigin R packets buffer) (hcommand : p.command = cmdBufferData)
    (hbounded : buffer.Bounded) (hle : ¬ p.segmentLength 4 > buffer.size - buffer.receivedSize) :
    HasOrigin R (packets ++ [p]) (buffer.copied p 4) := by
  obtain ⟨earlier, first, rest, rfl, h⟩ := h
  have hhead := streamerPacketHeadLength_data hcommand
  refine ⟨earlier, first, rest ++ [p], by rw [List.append_assoc, List.cons_append], h.command,
    h.type, h.size, h.checksum, ?_, ?_⟩
  · intro q hq hbegin
    rcases List.mem_append.mp hq with hq | hq
    · exact h.others q hq hbegin
    · obtain rfl := List.mem_singleton.mp hq
      exact absurd hcommand (begin_ne_data hbegin)
  · rw [(hbounded.copied hle).2, h.received, dataPackets_data hcommand, ← List.cons_append,
      List.flatMap_append, List.flatMap_singleton, p.segment_eq hhead]

/-- A packet that leaves the buffer as it is. -/
theorem HasOrigin.ignored (h : HasOrigin R packets buffer) (hcommand : p.command ≠ cmdBufferData)
    (hR : p.command = cmdBufferBegin → R buffer.storageCapacity p) :
    HasOrigin R (packets ++ [p]) buffer := by
  obtain ⟨earlier, first, rest, rfl, h⟩ := h
  refine ⟨earlier, first, rest ++ [p], by rw [List.append_assoc, List.cons_append], h.command,
    h.type, h.size, h.checksum, ?_, ?_⟩
  · intro q hq hbegin
    rcases List.mem_append.mp hq with hq | hq
    · exact h.others q hq hbegin
    · obtain rfl := List.mem_singleton.mp hq
      exact hR hbegin
  · rw [h.received, dataPackets_other hcommand]

end

/-! ## The invariant -/

/-- What holds of every state: while a buffer is registered, the task of the last receive is
still to be pushed. -/
structure ReceiverInv {Task : Type} (receiveChecksum : Bool) (R : UInt32 → CpxReceiveReq → Prop)
    (s : StreamerSystem Task) : Prop where
  bounded : ∀ b, s.bufferRx = some b → (s.buffers b).Bounded
  registered : ∀ b, s.bufferRx = some b → ∃ doneTask, (s.buffers b).doneTask = some doneTask ∧
    s.asked = s.ends.map ReceiveEnd.doneTask ++ [doneTask]
  idle : s.bufferRx = none → s.asked = s.ends.map ReceiveEnd.doneTask
  copies : ∀ c ∈ s.copies, c.offset + c.length ≤ c.storageCapacity
  completed : ∀ doneTask buffer packets, .completed doneTask buffer packets ∈ s.ends →
    HasOrigin R packets buffer ∧ buffer.receivedSize = buffer.size ∧
      ¬ buffer.Corrupted receiveChecksum

/-- The registered buffer has an origin unless nothing is received. -/
def StreamerSystem.Origin {Task : Type} (R : UInt32 → CpxReceiveReq → Prop)
    (s : StreamerSystem Task) : Prop :=
  ∀ b, s.bufferRx = some b → (s.buffers b).size ≠ 0 → HasOrigin R s.packets (s.buffers b)

section
variable {Task : Type} {receiveChecksum : Bool} {R : UInt32 → CpxReceiveReq → Prop}
  {s t : StreamerSystem Task} {b : BufferPtr} {buffer : StreamerBuffer Task} {p : CpxReceiveReq}

theorem ReceiverInv.log (h : ReceiverInv receiveChecksum R s) (p : CpxReceiveReq) :
    ReceiverInv receiveChecksum R (s.log p) :=
  ⟨h.bounded, h.registered, h.idle, h.copies, h.completed⟩

/-- The registered buffer changes, and keeps its task. -/
theorem ReceiverInv.setBuffer (h : ReceiverInv receiveChecksum R s) (hrx : s.bufferRx = some b)
    (hbounded : buffer.Bounded) (hdone : buffer.doneTask = (s.buffers b).doneTask) :
    ReceiverInv receiveChecksum R (s.setBuffer b buffer) := by
  refine ⟨?_, ?_, h.idle, h.copies, h.completed⟩
  · intro b' hrx'
    obtain rfl := Option.some.inj (hrx.symm.trans hrx')
    rwa [s.setBuffer_self]
  · intro b' hrx'
    obtain rfl := Option.some.inj (hrx.symm.trans hrx')
    rw [s.setBuffer_self, hdone]
    exact h.registered b hrx

/-- Another buffer changes. -/
theorem ReceiverInv.setOther (h : ReceiverInv receiveChecksum R s) (hrx : s.bufferRx ≠ some b) :
    ReceiverInv receiveChecksum R (s.setBuffer b buffer) := by
  have hother : ∀ b', s.bufferRx = some b' → (s.setBuffer b buffer).buffers b' = s.buffers b' := by
    intro b' hrx'
    refine s.setBuffer_of_ne ?_ buffer
    rintro rfl
    exact hrx hrx'
  refine ⟨?_, ?_, h.idle, h.copies, h.completed⟩
  · intro b' hrx'
    rw [hother b' hrx']
    exact h.bounded b' hrx'
  · intro b' hrx'
    rw [hother b' hrx']
    exact h.registered b' hrx'

theorem ReceiverInv.copy (h : ReceiverInv receiveChecksum R s) (hrx : s.bufferRx = some b)
    {headerLength : Nat}
    (hle : ¬ p.segmentLength headerLength > (s.buffers b).size - (s.buffers b).receivedSize) :
    ReceiverInv receiveChecksum R (s.copy b p headerLength) := by
  have hbounded := h.bounded b hrx
  obtain ⟨hbuffers, hregistered, hidle, hcopies, hcompleted⟩ :=
    h.setBuffer hrx (hbounded.copied hle).1 rfl
  refine ⟨hbuffers, hregistered, hidle, ?_, hcompleted⟩
  intro c hc
  rcases List.mem_append.mp hc with hc | hc
  · exact hcopies c hc
  · obtain rfl := List.mem_singleton.mp hc
    exact (hbounded.fits hle).2.trans (UInt32.le_iff_toNat_le.mp hbounded.2)

/-- A receive ends with the push of its task. -/
theorem ReceiverInv.pushDone (h : ReceiverInv receiveChecksum R s) (hrx : s.bufferRx = some b)
    {e : ReceiveEnd Task} (hdone : (s.buffers b).doneTask = some e.doneTask)
    (he : ∀ doneTask buffer packets, e = .completed doneTask buffer packets →
      HasOrigin R packets buffer ∧ buffer.receivedSize = buffer.size ∧
        ¬ buffer.Corrupted receiveChecksum) :
    ReceiverInv receiveChecksum R (s.pushDone b buffer e) := by
  obtain ⟨doneTask, hdone', hasked⟩ := h.registered b hrx
  obtain rfl := Option.some.inj (hdone.symm.trans hdone')
  refine ⟨?_, ?_, ?_, h.copies, ?_⟩
  · intro b' hrx'
    cases hrx'
  · intro b' hrx'
    cases hrx'
  · intro _
    have hends : (s.ends ++ [e]).map ReceiveEnd.doneTask =
        s.ends.map ReceiveEnd.doneTask ++ [e.doneTask] := List.map_append
    exact hasked.trans hends.symm
  · intro doneTask buffer packets hmem
    rcases List.mem_append.mp hmem with hmem | hmem
    · exact h.completed doneTask buffer packets hmem
    · exact he doneTask buffer packets (List.mem_singleton.mp hmem).symm

/-! ## Steps -/

/-- A state with no registered buffer, or with an empty one, needs no origin. -/
theorem origin_idle (hrx : s.bufferRx = none) : s.Origin R := by
  intro b hrx'
  cases hrx.symm.trans hrx'

theorem origin_dropped (hrx : s.bufferRx = some b) (hsize : (s.buffers b).size = 0) :
    s.Origin R := by
  intro b' hrx' hne
  obtain rfl := Option.some.inj (hrx.symm.trans hrx')
  exact absurd hsize hne

theorem segmentCopied_inv (h : ReceiverInv receiveChecksum R s) (hrx : s.bufferRx = some b)
    (horigin : HasOrigin R s.packets (s.buffers b))
    (hok : streamerSegmentCopied receiveChecksum s b = .ok t) :
    ReceiverInv receiveChecksum R t ∧ t.Origin R := by
  obtain ⟨doneTask, hdone, -⟩ := h.registered b hrx
  rw [streamerSegmentCopied] at hok
  by_cases hcomplete : (s.buffers b).receivedSize = (s.buffers b).size
  · rw [if_pos hcomplete] at hok
    by_cases hcorrupted : (s.buffers b).Corrupted receiveChecksum
    · rw [if_pos hcorrupted] at hok
      obtain rfl := Except.ok.inj hok
      refine ⟨h.setBuffer hrx (StreamerBuffer.dropped_bounded _) rfl, origin_dropped hrx ?_⟩
      rw [s.setBuffer_self]
      rfl
    · rw [if_neg hcorrupted, hdone] at hok
      obtain rfl := Except.ok.inj hok
      refine ⟨h.pushDone hrx hdone ?_, origin_idle rfl⟩
      intro doneTask' buffer packets he
      cases he
      exact ⟨horigin, hcomplete, hcorrupted⟩
  · rw [if_neg hcomplete] at hok
    obtain rfl := Except.ok.inj hok
    refine ⟨h, ?_⟩
    intro b' hrx' _
    obtain rfl := Option.some.inj (hrx.symm.trans hrx')
    exact horigin

theorem dataReceived_inv (h : ReceiverInv receiveChecksum R s) (hrx : s.bufferRx = some b)
    {headerLength : Nat} (hhead : streamerPacketHeadLength p.command = .ok headerLength)
    (horigin : (s.buffers b).size ≠ 0 →
      ¬ p.segmentLength headerLength > (s.buffers b).size - (s.buffers b).receivedSize →
      HasOrigin R s.packets ((s.buffers b).copied p headerLength))
    (hok : streamerBufferDataReceived receiveChecksum s p = .ok t) :
    ReceiverInv receiveChecksum R t ∧ t.Origin R := by
  rw [streamerBufferDataReceived_some hrx hhead] at hok
  by_cases hsize : (s.buffers b).size = 0
  · rw [if_pos hsize] at hok
    obtain rfl := Except.ok.inj hok
    exact ⟨h, origin_dropped hrx hsize⟩
  · rw [if_neg hsize] at hok
    by_cases hlong : p.segmentLength headerLength > (s.buffers b).size - (s.buffers b).receivedSize
    · rw [if_pos hlong] at hok
      obtain rfl := Except.ok.inj hok
      refine ⟨h.setBuffer hrx (StreamerBuffer.dropped_bounded _) rfl, origin_dropped hrx ?_⟩
      rw [s.setBuffer_self]
      rfl
    · rw [if_neg hlong] at hok
      have hcopied : (s.copy b p headerLength).buffers b = (s.buffers b).copied p headerLength :=
        s.setBuffer_self b _
      refine segmentCopied_inv (h.copy hrx hlong) hrx ?_ hok
      rw [hcopied]
      exact horigin hsize hlong

/-- A BUFFER_BEGIN packet is delivered: `R` describes it if it is too big for the buffer that is
being received. -/
theorem beginDelivered_inv (h : ReceiverInv receiveChecksum R s) (horigin : s.Origin R)
    (hcommand : p.command = cmdBufferBegin)
    (hR : ∀ b, s.bufferRx = some b → (s.buffers b).size ≠ 0 →
      p.begin.size > (s.buffers b).storageCapacity → R (s.buffers b).storageCapacity p)
    (hok : streamerBufferBeginReceived receiveChecksum (s.log p) p = .ok t) :
    ReceiverInv receiveChecksum R t ∧ t.Origin R := by
  cases hrx : (s.log p).bufferRx with
  | none =>
    rw [streamerBufferBeginReceived_none hrx] at hok
    obtain rfl := Except.ok.inj hok
    exact ⟨h.log p, origin_idle hrx⟩
  | some b =>
    rw [streamerBufferBeginReceived_some hrx] at hok
    by_cases htooBig : p.begin.size > ((s.log p).buffers b).storageCapacity
    · rw [if_pos htooBig] at hok
      obtain rfl := Except.ok.inj hok
      refine ⟨h.log p, ?_⟩
      intro b' hrx' hsize
      obtain rfl := Option.some.inj (hrx.symm.trans hrx')
      exact (horigin b hrx hsize).ignored (begin_ne_data hcommand) fun _ => hR b hrx hsize htooBig
    · rw [if_neg htooBig] at hok
      have hbounded : ((s.buffers b).begun p.begin).Bounded :=
        ⟨UInt32.zero_le, UInt32.not_lt.mp htooBig⟩
      refine dataReceived_inv ((h.log p).setBuffer hrx hbounded rfl) hrx
        (streamerPacketHeadLength_begin hcommand) ?_ hok
      rw [StreamerSystem.setBuffer_self]
      intro _ hle
      exact .begin hcommand hle htooBig

theorem dataDelivered_inv (h : ReceiverInv receiveChecksum R s) (horigin : s.Origin R)
    (hcommand : p.command = cmdBufferData)
    (hok : streamerBufferDataReceived receiveChecksum (s.log p) p = .ok t) :
    ReceiverInv receiveChecksum R t ∧ t.Origin R := by
  cases hrx : (s.log p).bufferRx with
  | none =>
    rw [streamerBufferDataReceived_none hrx] at hok
    obtain rfl := Except.ok.inj hok
    exact ⟨h.log p, origin_idle hrx⟩
  | some b =>
    refine dataReceived_inv (h.log p) hrx (streamerPacketHeadLength_data hcommand) ?_ hok
    intro hsize hle
    exact (horigin b hrx hsize).data hcommand (h.bounded b hrx) hle

theorem deliver_inv (h : ReceiverInv receiveChecksum R s) (horigin : s.Origin R)
    (hR : ∀ b, s.bufferRx = some b → (s.buffers b).size ≠ 0 → p.command = cmdBufferBegin →
      p.begin.size > (s.buffers b).storageCapacity → R (s.buffers b).storageCapacity p)
    (hok : streamerCpxCallback receiveChecksum (s.log p) p = .ok t) :
    ReceiverInv receiveChecksum R t ∧ t.Origin R := by
  rw [streamerCpxCallback] at hok
  by_cases hbegin : p.command = cmdBufferBegin
  · rw [if_pos hbegin] at hok
    exact beginDelivered_inv h horigin hbegin (fun b hrx hsize => hR b hrx hsize hbegin) hok
  · rw [if_neg hbegin] at hok
    by_cases hdata : p.command = cmdBufferData
    · rw [if_pos hdata] at hok
      exact dataDelivered_inv h horigin hdata hok
    · rw [if_neg hdata] at hok
      obtain rfl := Except.ok.inj hok
      refine ⟨h.log p, ?_⟩
      intro b hrx hsize
      exact (horigin b hrx hsize).ignored hdata fun hbegin' => absurd hbegin' hbegin

theorem receive_inv {doneTask : Option Task} (h : ReceiverInv receiveChecksum R s)
    (hfresh : (s.buffers b).Fresh) (hok : streamerReceiveBufferAsync s b doneTask = .ok t) :
    ReceiverInv receiveChecksum R t ∧ t.Origin R := by
  obtain ⟨hsize, hreceived, -⟩ := hfresh
  cases doneTask with
  | none => cases hok
  | some doneTask =>
    rw [streamerReceiveBufferAsync] at hok
    by_cases huse : (s.buffers b).doneTask.isSome
    · rw [if_pos huse] at hok
      cases hok
    · rw [if_neg huse] at hok
      by_cases hwaiting : s.bufferRx.isSome
      · rw [if_pos hwaiting] at hok
        cases hok
      · rw [if_neg hwaiting] at hok
        obtain rfl := Except.ok.inj hok
        have hnone : s.bufferRx = none := by simpa using hwaiting
        have hbuffer := s.setBuffer_self b { s.buffers b with doneTask := some doneTask }
        refine ⟨⟨?_, ?_, ?_, h.copies, h.completed⟩, origin_dropped rfl ?_⟩
        · intro b' hrx
          obtain rfl := Option.some.inj hrx
          change ((s.setBuffer b _).buffers b).Bounded
          rw [hbuffer]
          refine ⟨?_, ?_⟩
          · change (s.buffers b).receivedSize ≤ (s.buffers b).size
            rw [hreceived, hsize]
            exact UInt32.le_refl _
          · change (s.buffers b).size ≤ (s.buffers b).storageCapacity
            rw [hsize]
            exact UInt32.zero_le
        · intro b' hrx
          obtain rfl := Option.some.inj hrx
          refine ⟨doneTask, congrArg StreamerBuffer.doneTask hbuffer, ?_⟩
          exact congrArg (· ++ [doneTask]) (h.idle hnone)
        · intro hrx
          cases hrx
        · exact (congrArg StreamerBuffer.size hbuffer).trans hsize

theorem cancel_inv (h : ReceiverInv receiveChecksum R s) (horigin : s.Origin R)
    (hok : streamerCancelReceive s b = .ok t) :
    ReceiverInv receiveChecksum R t ∧ t.Origin R := by
  simp only [streamerCancelReceive] at hok
  by_cases hdone : s.bufferRx.isNone ∧ (s.buffers b).doneTask.isNone
  · rw [if_pos hdone] at hok
    obtain rfl := Except.ok.inj hok
    exact ⟨h, horigin⟩
  · rw [if_neg hdone] at hok
    by_cases hrx : s.bufferRx = some b
    · obtain ⟨doneTask, hdoneTask, -⟩ := h.registered b hrx
      rw [if_neg (not_not.mpr hrx), hdoneTask] at hok
      obtain rfl := Except.ok.inj hok
      refine ⟨h.pushDone hrx hdoneTask ?_, origin_idle rfl⟩
      intro doneTask' buffer packets he
      cases he
    · rw [if_pos hrx] at hok
      cases hok

theorem init_inv (h : ReceiverInv receiveChecksum R s) (horigin : s.Origin R)
    (hrx : s.bufferRx ≠ some b) (storage : Nat → UInt8) (storageCapacity : UInt32) :
    ReceiverInv receiveChecksum R (streamerBufferInit s b storage storageCapacity) ∧
      (streamerBufferInit s b storage storageCapacity).Origin R := by
  refine ⟨h.setOther hrx, ?_⟩
  intro b' hrx'
  have hne : b' ≠ b := by
    rintro rfl
    exact hrx hrx'
  rw [streamerBufferInit, s.setBuffer_of_ne hne]
  exact horigin b' hrx'

/-- Every state of a run: `R` describes the BUFFER_BEGIN packets too big for the registered
buffer that the condition lets through while that buffer is received. -/
theorem reachable_receiverInv {cond : StreamerSystem Task → StreamerAction Task → Prop}
    (hR : ∀ s p b, cond s (.deliver p) → s.bufferRx = some b → (s.buffers b).size ≠ 0 →
      p.command = cmdBufferBegin → p.begin.size > (s.buffers b).storageCapacity →
      R (s.buffers b).storageCapacity p)
    (h : (streamerReceiver Task receiveChecksum cond).Reachable s) :
    ReceiverInv receiveChecksum R s ∧ s.Origin R := by
  refine h.invariant (P := fun s => ReceiverInv receiveChecksum R s ∧ s.Origin R) ?_ ?_
  · intro s hstarted
    obtain ⟨hrx, -, hcopies, hasked, hends⟩ := hstarted
    refine ⟨⟨?_, ?_, ?_, ?_, ?_⟩, ?_⟩
    · intro b hrx'
      cases hrx.symm.trans hrx'
    · intro b hrx'
      cases hrx.symm.trans hrx'
    · intro _
      rw [hasked, hends]
      rfl
    · intro c hc
      rw [hcopies] at hc
      cases hc
    · intro doneTask buffer packets hmem
      rw [hends] at hmem
      cases hmem
    · intro b hrx'
      cases hrx.symm.trans hrx'
  · intro s t hinv hstep
    obtain ⟨h, horigin⟩ := hinv
    obtain ⟨a, henabled, hcond, hok⟩ := hstep
    cases a with
    | deliver p => exact deliver_inv h horigin (fun b => hR s p b hcond) hok
    | init b storage storageCapacity =>
      obtain rfl := Except.ok.inj hok
      exact init_inv h horigin henabled storage storageCapacity
    | receive b doneTask => exact receive_inv h henabled hok
    | cancel b => exact cancel_inv h horigin hok

/-- The task of the receive that has not ended. -/
def StreamerSystem.outstanding (s : StreamerSystem Task) : Option Task :=
  s.bufferRx.bind fun b => (s.buffers b).doneTask

theorem ReceiverInv.asked (h : ReceiverInv receiveChecksum R s) :
    s.asked = s.ends.map ReceiveEnd.doneTask ++ s.outstanding.toList := by
  cases hrx : s.bufferRx with
  | none =>
    rw [h.idle hrx, StreamerSystem.outstanding, hrx]
    exact (List.append_nil _).symm
  | some b =>
    obtain ⟨doneTask, hdone, hasked⟩ := h.registered b hrx
    rw [hasked, StreamerSystem.outstanding, hrx]
    exact congrArg (fun o => _ ++ Option.toList o) hdone.symm

theorem ReceiverInv.idle_iff (h : ReceiverInv receiveChecksum R s) :
    s.bufferRx = none ↔ s.asked.length = s.ends.length := by
  constructor
  · intro hrx
    rw [h.idle hrx, List.length_map]
  · intro hlength
    cases hrx : s.bufferRx with
    | none => rfl
    | some b =>
      obtain ⟨doneTask, -, hasked⟩ := h.registered b hrx
      rw [hasked, List.length_append, List.length_map, List.length_singleton] at hlength
      omega

/-- **The invariant of the receiver.** Sizes stay in bounds, copies stay in the storage, a buffer
is registered exactly while a receive is outstanding, each receive ends once, and a buffer that
is completed passes the checksum of its BUFFER_BEGIN packet. -/
theorem reachable_receiver
    (h : (streamerReceiver Task receiveChecksum fun _ _ => True).Reachable s) :
    (∀ b, s.bufferRx = some b → (s.buffers b).receivedSize ≤ (s.buffers b).size ∧
        (s.buffers b).size ≤ (s.buffers b).storageCapacity) ∧
      (∀ c ∈ s.copies, c.offset + c.length ≤ c.storageCapacity) ∧
      (s.bufferRx = none ↔ s.asked.length = s.ends.length) ∧
      s.asked = s.ends.map ReceiveEnd.doneTask ++ s.outstanding.toList ∧
      ∀ doneTask buffer packets, .completed doneTask buffer packets ∈ s.ends →
        ∃ earlier first rest, packets = earlier ++ first :: rest ∧
          ReceivedFrom (fun capacity p => p.begin.size > capacity) first rest buffer ∧
          (receiveChecksum = true → first.begin.checksum ≠ 0 →
            streamerComputeChecksum (segment buffer.storage 0 buffer.size.toNat) =
              first.begin.checksum) := by
  obtain ⟨hinv, -⟩ := reachable_receiverInv (R := fun capacity p => p.begin.size > capacity)
    (fun _ _ _ _ _ _ _ htooBig => htooBig) h
  refine ⟨hinv.bounded, hinv.copies, hinv.idle_iff, hinv.asked, ?_⟩
  intro doneTask buffer packets hmem
  obtain ⟨⟨earlier, first, rest, hpackets, hfrom⟩, -, hsound⟩ :=
    hinv.completed doneTask buffer packets hmem
  refine ⟨earlier, first, rest, hpackets, hfrom, ?_⟩
  intro hflag hne
  rw [← hfrom.checksum] at hne ⊢
  exact Decidable.not_not.mp fun hdiffers => hsound ⟨hflag, hne, hdiffers⟩

/-- A receive that completes and one that is cancelled. -/
theorem reachable_receiver_cancelled :
    ∃ s : StreamerSystem Nat, s.asked = [1, 2] ∧ s.bufferRx = none ∧
      s.asked.length = s.ends.length ∧ ∀ c ∈ s.copies, c.offset + c.length ≤ c.storageCapacity := by
  have hrun : (Transition.follow (fun s a => StreamerAction.Enabled s a ∧ True)
      (StreamerAction.run true) (.initial Nat)
      [.init 5 (fun _ => 0) 4, .receive 5 (some 1),
        .deliver (.ofBegin ⟨typeImage, 3, 0⟩ [7] fun _ => 0),
        .deliver (.ofData [0, 0, 0] [8, 9] fun _ => 0), .init 5 (fun _ => 0) 4,
        .receive 5 (some 2), .cancel 5]).map (fun s => (s.asked, s.bufferRx)) =
      some ([1, 2], none) := by
    decide +kernel
  obtain ⟨s, hfollow, hs⟩ := Option.map_eq_some_iff.mp hrun
  obtain ⟨hasked, hrx⟩ := Prod.mk.inj hs
  obtain ⟨-, hcopies, hidle, -, -⟩ := reachable_receiver (streamerReceiver_follow hfollow)
  exact ⟨s, hasked, hrx, hidle.mp hrx, hcopies⟩

end

end AiDeck.Streamer
