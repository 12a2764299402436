import AiDeck.Lib.Transition
import AiDeck.Streamer.Packet

/-! # Receiving a buffer

`streamer_cpx_callback`, `streamer_receive_buffer_async` and `streamer_cancel_receive`
(nanocockpit/lib/streamer.c), in any order. Beside the variables of the code the state
keeps what has happened. -/
namespace AiDeck.Streamer
open AiDeck.Lib AiDeck.Lib.Bytes AiDeck.Cpx AiDeck.Coroutine

/-- The fields of `cpx_receive_req_t` that the callback reads: behind `payloadLength` the
payload is what earlier packets have left. -/
structure CpxReceiveReq where
  payload : Nat → UInt8
  payloadLength : UInt16

namespace CpxReceiveReq

def command (p : CpxReceiveReq) : UInt8 := p.payload 0

def begin (p : CpxReceiveReq) : StreamerBegin :=
  .ofBytes (segment p.payload sizeofCommand sizeofBegin)

/-- `segment_length`, a `size_t`: it wraps if the packet is shorter than its header. -/
def segmentLength (p : CpxReceiveReq) (headerLength : Nat) : UInt32 :=
  p.payloadLength.toUInt32 - .ofNat headerLength

/-- A payload, in front of what the receive buffer holds behind it. -/
def ofPayload (bytes : List UInt8) (tail : Nat → UInt8) : CpxReceiveReq :=
  ⟨feed bytes tail, .ofNat bytes.length⟩

/-- A BUFFER_BEGIN packet. -/
def ofBegin (b : StreamerBegin) (segment : List UInt8) (tail : Nat → UInt8) : CpxReceiveReq :=
  .ofPayload (cmdBufferBegin :: (b.toBytes ++ segment)) tail

/-- A BUFFER_DATA packet. -/
def ofData (padding segment : List UInt8) (tail : Nat → UInt8) : CpxReceiveReq :=
  .ofPayload (cmdBufferData :: (padding ++ segment)) tail

/-- The bytes that are copied from a packet with a header of this length. -/
def segmentFrom (p : CpxReceiveReq) (headerLength : Nat) : List UInt8 :=
  segment p.payload headerLength (p.segmentLength headerLength).toNat

end CpxReceiveReq

/-- `streamer_buffer_t` with the bytes at `storage`. -/
structure StreamerBuffer (Task : Type) where
  storage : Nat → UInt8
  storageCapacity : UInt32
  type : UInt8
  size : UInt32
  receivedSize : UInt32
  checksum : UInt32
  doneTask : Option Task

namespace StreamerBuffer
variable {Task : Type}

/-- The assignments of `streamer_buffer_begin_received`. -/
def begun (buffer : StreamerBuffer Task) (begin : StreamerBegin) : StreamerBuffer Task :=
  { buffer with type := begin.type, size := begin.size, receivedSize := 0, checksum := begin.checksum }

/-- The assignments that drop what has been received. -/
def dropped (buffer : StreamerBuffer Task) : StreamerBuffer Task :=
  { buffer with size := 0, receivedSize := 0, checksum := 0 }

/-- `memcpy` into the storage, and `received_size` behind it. -/
def copied (buffer : StreamerBuffer Task) (p : CpxReceiveReq) (headerLength : Nat) :
    StreamerBuffer Task :=
  { buffer with
    storage := overwrite buffer.storage buffer.receivedSize.toNat (p.segmentFrom headerLength)
    receivedSize := buffer.receivedSize + p.segmentLength headerLength }

/-- The bytes received so far. -/
def received (buffer : StreamerBuffer Task) : List UInt8 :=
  segment buffer.storage 0 buffer.receivedSize.toNat

/-- The test of a complete buffer; `receiveChecksum` says whether
`STREAMER_RECEIVE_CHECKSUM` is defined. -/
def Corrupted (receiveChecksum : Bool) (buffer : StreamerBuffer Task) : Prop :=
  receiveChecksum = true ∧ buffer.checksum ≠ 0 ∧
    streamerComputeChecksum (segment buffer.storage 0 buffer.size.toNat) ≠ buffer.checksum

instance decidableCorrupted (receiveChecksum : Bool) (buffer : StreamerBuffer Task) :
    Decidable (buffer.Corrupted receiveChecksum) :=
  inferInstanceAs (Decidable (_ ∧ _ ∧ _))

/-- A buffer as `streamer_buffer_init` leaves it. -/
def Fresh (buffer : StreamerBuffer Task) : Prop :=
  buffer.size = 0 ∧ buffer.receivedSize = 0 ∧ buffer.doneTask.isNone

end StreamerBuffer

/-- A `streamer_buffer_t *`; `NULL` is `none`. -/
abbrev BufferPtr : Type := Nat

/-- A `memcpy` into the storage of a buffer. -/
structure StorageCopy where
  offset : Nat
  length : Nat
  storageCapacity : Nat

/-- A push of the `done_task` of a receive: where the code does it, and for a completed buffer
its fields and the packets delivered until then. -/
inductive ReceiveEnd (Task : Type) where
  | completed (doneTask : Task) (buffer : StreamerBuffer Task) (packets : List CpxReceiveReq)
  | cancelled (doneTask : Task)

def ReceiveEnd.doneTask {Task : Type} : ReceiveEnd Task → Task
  | completed t _ _ => t
  | cancelled t => t

/-- The variables of the streamer, and what has happened: the packets that were delivered, the
copies, the `done_task` of each receive and the ends of receives. -/
structure StreamerSystem (Task : Type) where
  bufferRx : Option BufferPtr
  buffers : BufferPtr → StreamerBuffer Task
  packets : List CpxReceiveReq
  copies : List StorageCopy
  asked : List Task
  ends : List (ReceiveEnd Task)

namespace StreamerSystem
variable {Task : Type}

/-- A packet has been delivered. -/
def log (s : StreamerSystem Task) (packet : CpxReceiveReq) : StreamerSystem Task :=
  { s with packets := s.packets ++ [packet] }

def setBuffer (s : StreamerSystem Task) (b : BufferPtr) (buffer : StreamerBuffer Task) :
    StreamerSystem Task :=
  { s with buffers := Function.update s.buffers b buffer }

@[simp] theorem setBuffer_self (s : StreamerSystem Task) (b : BufferPtr)
    (buffer : StreamerBuffer Task) : (s.setBuffer b buffer).buffers b = buffer := by
  simp only [setBuffer, Function.update_self]

theorem setBuffer_of_ne (s : StreamerSystem Task) {b b' : BufferPtr} (h : b' ≠ b)
    (buffer : StreamerBuffer Task) : (s.setBuffer b buffer).buffers b' = s.buffers b' := by
  simp only [setBuffer, Function.update_of_ne h]

/-- The copy of a segment. -/
def copy (s : StreamerSystem Task) (b : BufferPtr) (p : CpxReceiveReq) (headerLength : Nat) :
    StreamerSystem Task :=
  { s.setBuffer b ((s.buffers b).copied p headerLength) with
    copies := s.copies ++ [⟨(s.buffers b).receivedSize.toNat, (p.segmentLength headerLength).toNat,
      (s.buffers b).storageCapacity.toNat⟩] }

/-- The end of a receive: `pi_task_push` and the assignments around it. -/
def pushDone (s : StreamerSystem Task) (b : BufferPtr) (buffer : StreamerBuffer Task)
    (e : ReceiveEnd Task) : StreamerSystem Task :=
  { s.setBuffer b { buffer with doneTask := none } with
    bufferRx := none
    ends := s.ends ++ [e] }

end StreamerSystem

section
variable {Task : Type} (receiveChecksum : Bool)

/-- `streamer_buffer_data_received` once the segment is copied. -/
def streamerSegmentCopied (s : StreamerSystem Task) (b : BufferPtr) :
    Except Stop (StreamerSystem Task) :=
  let buffer := s.buffers b
  if buffer.receivedSize = buffer.size then
    if buffer.Corrupted receiveChecksum then .ok (s.setBuffer b buffer.dropped)
    else match buffer.doneTask with
      | none => .error .nullPointer
      | some doneTask => .ok (s.pushDone b buffer (.completed doneTask buffer s.packets))
  else .ok s

def streamerBufferDataReceived (s : StreamerSystem Task) (packet : CpxReceiveReq) :
    Except Stop (StreamerSystem Task) :=
  match s.bufferRx with
  | none => .ok s
  | some b =>
    let buffer := s.buffers b
    if buffer.size = 0 then .ok s
    else do
      let headerLength ← streamerPacketHeadLength packet.command
      let remainingLength := buffer.size - buffer.receivedSize
      if packet.segmentLength headerLength > remainingLength then
        return s.setBuffer b buffer.dropped
      else streamerSegmentCopied receiveChecksum (s.copy b packet headerLength) b

def streamerBufferBeginReceived (s : StreamerSystem Task) (packet : CpxReceiveReq) :
    Except Stop (StreamerSystem Task) :=
  match s.bufferRx with
  | none => .ok s
  | some b =>
    let buffer := s.buffers b
    if packet.begin.size > buffer.storageCapacity then .ok s
    else
      -- the payload of BUFFER_BEGIN contains the first segment
      streamerBufferDataReceived receiveChecksum (s.setBuffer b (buffer.begun packet.begin)) packet

def streamerCpxCallback (s : StreamerSystem Task) (packet : CpxReceiveReq) :
    Except Stop (StreamerSystem Task) :=
  if packet.command = cmdBufferBegin then streamerBufferBeginReceived receiveChecksum s packet
  else if packet.command = cmdBufferData then streamerBufferDataReceived receiveChecksum s packet
  else .ok s

/-- `streamer_buffer_init`; `type` and `checksum` keep their values. -/
def streamerBufferInit (s : StreamerSystem Task) (b : BufferPtr) (storage : Nat → UInt8)
    (storageCapacity : UInt32) : StreamerSystem Task :=
  s.setBuffer b
    { s.buffers b with
      storage := storage
      storageCapacity := storageCapacity
      size := 0
      receivedSize := 0
      doneTask := none }

def streamerReceiveBufferAsync (s : StreamerSystem Task) (b : BufferPtr) :
    Option Task → Except Stop (StreamerSystem Task)
  | none => .error (.assertion "Must specify a callback task\n")
  | some doneTask =>
    if (s.buffers b).doneTask.isSome then .error (.assertion "Buffer is already in use\n")
    else if s.bufferRx.isSome then
      .error (.assertion "Streamer is already waiting to receive another buffer\n")
    else
      .ok { s.setBuffer b { s.buffers b with doneTask := some doneTask } with
            bufferRx := some b
            asked := s.asked ++ [doneTask] }

def streamerCancelReceive (s : StreamerSystem Task) (b : BufferPtr) :
    Except Stop (StreamerSystem Task) :=
  let buffer := s.buffers b
  if s.bufferRx.isNone ∧ buffer.doneTask.isNone then .ok s
  else if s.bufferRx ≠ some b then
    .error (.assertion
      "Streamer is waiting to receive (%p), not the buffer being canceled (%p)\n")
  else match buffer.doneTask with
    | none => .error .nullPointer
    | some doneTask =>
      .ok (s.pushDone b { buffer with size := 0, receivedSize := 0 } (.cancelled doneTask))

variable {receiveChecksum} {s : StreamerSystem Task} {b : BufferPtr} {packet : CpxReceiveReq}

theorem streamerBufferDataReceived_none (hrx : s.bufferRx = none) :
    streamerBufferDataReceived receiveChecksum s packet = .ok s := by
  rw [streamerBufferDataReceived, hrx]

theorem streamerBufferDataReceived_some (hrx : s.bufferRx = some b) {headerLength : Nat}
    (hhead : streamerPacketHeadLength packet.command = .ok headerLength) :
    streamerBufferDataReceived receiveChecksum s packet =
      if (s.buffers b).size = 0 then .ok s
      else if packet.segmentLength headerLength > (s.buffers b).size - (s.buffers b).receivedSize then
        .ok (s.setBuffer b (s.buffers b).dropped)
      else streamerSegmentCopied receiveChecksum (s.copy b packet headerLength) b := by
  simp only [streamerBufferDataReceived, hrx, hhead]
  rfl

theorem streamerBufferBeginReceived_none (hrx : s.bufferRx = none) :
    streamerBufferBeginReceived receiveChecksum s packet = .ok s := by
  rw [streamerBufferBeginReceived, hrx]

theorem streamerBufferBeginReceived_some (hrx : s.bufferRx = some b) :
    streamerBufferBeginReceived receiveChecksum s packet =
      if packet.begin.size > (s.buffers b).storageCapacity then .ok s
      else streamerBufferDataReceived receiveChecksum
        (s.setBuffer b ((s.buffers b).begun packet.begin)) packet := by
  rw [streamerBufferBeginReceived, hrx]

end

/-! ## Runs -/

/-- A packet that reaches the callback, or a call of the program. -/
inductive StreamerAction (Task : Type) where
  | deliver (packet : CpxReceiveReq)
  | init (b : BufferPtr) (storage : Nat → UInt8) (storageCapacity : UInt32)
  | receive (b : BufferPtr) (doneTask : Option Task)
  | cancel (b : BufferPtr)

section
variable {Task : Type}

/-- A buffer is initialised before it is received into, and not while it is registered. -/
def StreamerAction.Enabled (s : StreamerSystem Task) : StreamerAction Task → Prop
  | deliver _ => True
  | init b _ _ => s.bufferRx ≠ some b
  | receive b _ => (s.buffers b).Fresh
  | cancel _ => True

instance StreamerAction.decidableEnabled (s : StreamerSystem Task) (a : StreamerAction Task) :
    Decidable (a.Enabled s) :=
  match a with
  | .deliver _ => inferInstanceAs (Decidable True)
  | .init b _ _ => inferInstanceAs (Decidable (s.bufferRx ≠ some b))
  | .receive b _ =>
    inferInstanceAs (Decidable ((s.buffers b).size = 0 ∧ (s.buffers b).receivedSize = 0 ∧
      (s.buffers b).doneTask.isNone))
  | .cancel _ => inferInstanceAs (Decidable True)

def StreamerAction.run (receiveChecksum : Bool) (s : StreamerSystem Task) :
    StreamerAction Task → Except Stop (StreamerSystem Task)
  | deliver packet => streamerCpxCallback receiveChecksum (s.log packet) packet
  | init b storage storageCapacity => .ok (streamerBufferInit s b storage storageCapacity)
  | receive b doneTask => streamerReceiveBufferAsync s b doneTask
  | cancel b => streamerCancelReceive s b

/-- The state after `streamer_init`. -/
def StreamerSystem.Started (s : StreamerSystem Task) : Prop :=
  s.bufferRx = none ∧ s.packets = [] ∧ s.copies = [] ∧ s.asked = [] ∧ s.ends = []

end

/-- A state after `streamer_init`. -/
def StreamerSystem.initial (Task : Type) : StreamerSystem Task :=
  ⟨none, fun _ => ⟨fun _ => 0, 0, 0, 0, 0, 0, none⟩, [], [], [], []⟩

/-- The runs whose actions all meet a condition on the state before them. -/
def streamerReceiver (Task : Type) (receiveChecksum : Bool)
    (cond : StreamerSystem Task → StreamerAction Task → Prop) :
    Transition (StreamerSystem Task) where
  init := StreamerSystem.Started
  step s t := ∃ a : StreamerAction Task, a.Enabled s ∧ cond s a ∧ a.run receiveChecksum s = .ok t

section
variable {Task : Type} {receiveChecksum : Bool}
  {cond : StreamerSystem Task → StreamerAction Task → Prop}
  [∀ s a, Decidable (StreamerAction.Enabled s a ∧ cond s a)]

/-- A list of actions is a run. -/
theorem streamerReceiver_follow {actions : List (StreamerAction Task)} {s : StreamerSystem Task}
    (h : Transition.follow (fun s a => StreamerAction.Enabled s a ∧ cond s a)
      (StreamerAction.run receiveChecksum) (.initial Task) actions = some s) :
    (streamerReceiver Task receiveChecksum cond).Reachable s := by
  have hinit : (streamerReceiver Task receiveChecksum cond).Reachable (.initial Task) :=
    .init ⟨rfl, rfl, rfl, rfl, rfl⟩
  refine hinit.follow _ _ ?_ h
  intro s a t henabled hok
  exact ⟨a, henabled.1, henabled.2, hok⟩

end

end AiDeck.Streamer
