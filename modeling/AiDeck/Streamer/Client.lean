import AiDeck.Host.TcpTransport
import AiDeck.Streamer.Packet

/-! # The streamer client of the host

`StreamerClient.receive` and `StreamerClient.send_buffer`
(aideck_cpx_streamer/cpx/streamer.py). An exception leaves the generator. -/
namespace AiDeck.Streamer
open AiDeck.Lib.Bytes AiDeck.Cpx AiDeck.Crc32 AiDeck.Host

/-- `StreamerCommand` -/
inductive StreamerCommand where
  | bufferBegin
  | bufferData
  deriving DecidableEq, Repr

def StreamerCommand.value : StreamerCommand → UInt8
  | bufferBegin => cmdBufferBegin
  | bufferData => cmdBufferData

/-- The variables of `receive`; `None` is `none`. -/
structure ClientState where
  expectedCmd : StreamerCommand
  rxBuffer : Option (List UInt8)
  bufferType : Option UInt8
  remainingLength : Option Nat
  expectedChecksum : Option UInt32
  deriving DecidableEq

namespace ClientState

/-- The assignments before the loop, and those on an unexpected command. -/
def reset : ClientState := ⟨.bufferBegin, none, none, none, none⟩

/-- The test that resets the variables. -/
def expect (vars : ClientState) (command : UInt8) : ClientState :=
  if command ≠ vars.expectedCmd.value then reset else vars

/-- The header of the expected command: the variables and `packet_offset` behind it.
`from_buffer_copy` raises if the payload is too short. -/
def header (vars : ClientState) (payload : List UInt8) : Option (ClientState × Nat) :=
  match vars.expectedCmd with
  | .bufferBegin =>
    if payload.length < sizeofCommand + sizeofBegin then none
    else
      let begin := StreamerBegin.ofBytes (payload.drop sizeofCommand)
      some (⟨.bufferData, some [], some begin.type, some begin.size.toNat, some begin.checksum⟩,
        sizeofCommand + sizeofBegin)
  | .bufferData =>
    if payload.length < sizeofCommand + sizeofData then none
    else some (vars, sizeofCommand + sizeofData)

end ClientState

/-- The generator `receive`: its variables, `none` once an exception has left it, and the
calls of `process_buffer` it has made. -/
structure ClientGenerator where
  vars : Option ClientState
  calls : List (UInt8 × List UInt8)
  deriving DecidableEq

namespace ClientGenerator

def set (g : ClientGenerator) (vars : ClientState) : ClientGenerator := { g with vars := some vars }

def raised (g : ClientGenerator) : ClientGenerator := { g with vars := none }

/-- The call of `process_buffer`, which may raise, and the assignments behind it. -/
def process (g : ClientGenerator) (raises : UInt8 → List UInt8 → Bool) (bufferType : UInt8)
    (rxBuffer : List UInt8) (vars : ClientState) : ClientGenerator :=
  { vars := if raises bufferType rxBuffer then none else some vars
    calls := g.calls ++ [(bufferType, rxBuffer)] }

/-- The end of the loop body: the segment of either packet. -/
def chunk (g : ClientGenerator) (raises : UInt8 → List UInt8 → Bool) (vars : ClientState)
    (segment : List UInt8) : ClientGenerator :=
  match vars.rxBuffer, vars.bufferType, vars.remainingLength, vars.expectedChecksum with
  | some rxBuffer, some bufferType, some remainingLength, some expectedChecksum =>
    let payloadLength := min segment.length remainingLength
    let rxBuffer := rxBuffer ++ segment.take payloadLength
    let remainingLength := remainingLength - payloadLength
    if remainingLength = 0 then
      if expectedChecksum ≠ 0 ∧ crc32 rxBuffer ≠ expectedChecksum then
        g.set ⟨.bufferBegin, some rxBuffer, some bufferType, some remainingLength,
          some expectedChecksum⟩
      else
        g.process raises bufferType rxBuffer
          ⟨.bufferBegin, none, none, none, some expectedChecksum⟩
    else
      g.set ⟨.bufferData, some rxBuffer, some bufferType, some remainingLength,
        some expectedChecksum⟩
  -- an operation on `None`
  | _, _, _, _ => g.raised

/-- The loop body for a packet with the expected command. -/
def packet (g : ClientGenerator) (raises : UInt8 → List UInt8 → Bool) (vars : ClientState)
    (payload : List UInt8) : ClientGenerator :=
  match vars.header payload with
  | none => g.raised
  | some (vars, packetOffset) => g.chunk raises vars (payload.drop packetOffset)

end ClientGenerator

/-- The loop body for a packet of the streamer. -/
def receiveStreamer (raises : UInt8 → List UInt8 → Bool) (g : ClientGenerator)
    (vars : ClientState) (payload : List UInt8) : ClientGenerator :=
  match payload with
  | [] => g.raised
  | command :: _ =>
    let vars := vars.expect command
    if command ≠ vars.expectedCmd.value then g.set vars else g.packet raises vars payload

/-- The loop body; packets of other functions are ignored. -/
def receivePacket (raises : UInt8 → List UInt8 → Bool) (g : ClientGenerator) (p : CpxPacket) :
    ClientGenerator :=
  match g.vars with
  | none => g
  | some vars =>
    if p.header.function ≠ cpxFStreamer then g else receiveStreamer raises g vars p.payload

/-- `receive` over the packets that `cpx.receive` yields. -/
def clientReceive (raises : UInt8 → List UInt8 → Bool) (packets : List CpxPacket) :
    ClientGenerator :=
  packets.foldl (receivePacket raises) ⟨some .reset, []⟩

/-! ## Sending -/

/-- `cpx.max_payload_length`: what the transport takes less the CPX header. -/
abbrev maxPayloadLength : Nat := cpxTcpMtu - 2

/-- `_max_buffer_begin_length` -/
abbrev maxBufferBeginLength : Nat := maxPayloadLength - sizeofCommand - sizeofBegin
/-- `_max_buffer_data_length` -/
abbrev maxBufferDataLength : Nat := maxPayloadLength - sizeofCommand - sizeofData

/-- The payload of `_send_buffer_begin`; a `c_uint32` keeps the low bits. -/
def sendBufferBegin (bufferType : UInt8) (bufferSize : Nat) (bufferChecksum : UInt32)
    (bufferSegment : List UInt8) : List UInt8 :=
  cmdBufferBegin :: (StreamerBegin.toBytes ⟨bufferType, .ofNat bufferSize, bufferChecksum⟩ ++
    bufferSegment)

/-- The payload of `_send_buffer_data`. -/
def sendBufferData (bufferSegment : List UInt8) : List UInt8 :=
  cmdBufferData :: ([0, 0, 0] ++ bufferSegment)

/-- The loop of `send_buffer` from `buffer_sent` on, given so many rounds; `none` if they
are not enough. -/
def sendBufferLoop (bufferType : UInt8) (buffer : List UInt8) : Nat → Nat →
    Option (List (List UInt8))
  | 0, _ => none
  | rounds + 1, bufferSent =>
    if bufferSent < buffer.length then
      let maxSegmentLength := if bufferSent = 0 then maxBufferBeginLength else maxBufferDataLength
      let segment := (buffer.drop bufferSent).take maxSegmentLength
      let payload :=
        if bufferSent = 0 then sendBufferBegin bufferType buffer.length (crc32 buffer) segment
        else sendBufferData segment
      (sendBufferLoop bufferType buffer rounds (bufferSent + segment.length)).map (payload :: ·)
    else some []

/-- The payloads that `send_buffer` sends. A buffer takes at most one for each byte. -/
def sendBuffer (bufferType : UInt8) (buffer : List UInt8) : Option (List (List UInt8)) :=
  sendBufferLoop bufferType buffer (buffer.length + 1) 0

/-! ## One packet -/

section
variable {raises : UInt8 → List UInt8 → Bool} {g : ClientGenerator} {vars : ClientState}

/-- The variables while a buffer is received. -/
def receiving (rxBuffer : List UInt8) (bufferType : UInt8) (remainingLength : Nat)
    (expectedChecksum : UInt32) : ClientState :=
  ⟨.bufferData, some rxBuffer, some bufferType, some remainingLength, some expectedChecksum⟩

/-- A BUFFER_BEGIN packet starts a buffer, whatever was received before. -/
theorem receiveStreamer_begin (vars : ClientState) (b : StreamerBegin) (segment : List UInt8) :
    receiveStreamer raises g vars (cmdBufferBegin :: (b.toBytes ++ segment)) =
      g.chunk raises (receiving [] b.type b.size.toNat b.checksum) segment := by
  have hexpect : ∃ v : ClientState, vars.expect cmdBufferBegin = v ∧
      v.expectedCmd = .bufferBegin := by
    rw [ClientState.expect]
    cases hcmd : vars.expectedCmd with
    | bufferBegin => exact ⟨vars, by simp [StreamerCommand.value], hcmd⟩
    | bufferData => exact ⟨.reset, if_pos (by decide), rfl⟩
  obtain ⟨v, hv, hcmd⟩ := hexpect
  have hlength : ¬ (cmdBufferBegin :: (b.toBytes ++ segment)).length <
      sizeofCommand + sizeofBegin := by
    rw [List.length_cons, List.length_append, StreamerBegin.toBytes_length, Nat.add_comm 1]
    exact Nat.not_lt.mpr (Nat.succ_le_succ (Nat.le_add_right _ _))
  have hheader : v.header (cmdBufferBegin :: (b.toBytes ++ segment)) =
      some (receiving [] b.type b.size.toNat b.checksum, sizeofCommand + sizeofBegin) := by
    simp only [ClientState.header, hcmd, if_neg hlength, List.drop_succ_cons, List.drop_zero,
      StreamerBegin.ofBytes_toBytes, receiving]
  simp only [receiveStreamer, hv, hcmd, StreamerCommand.value, ne_eq, not_true, if_false,
    ClientGenerator.packet, hheader]
  congr 1

/-- A BUFFER_DATA packet while a buffer is received. -/
theorem receiveStreamer_data {rxBuffer : List UInt8} {bufferType : UInt8} {remainingLength : Nat}
    {expectedChecksum : UInt32} {padding : List UInt8} (segment : List UInt8)
    (hpadding : padding.length = sizeofData) :
    receiveStreamer raises g (receiving rxBuffer bufferType remainingLength expectedChecksum)
        (cmdBufferData :: (padding ++ segment)) =
      g.chunk raises (receiving rxBuffer bufferType remainingLength expectedChecksum) segment := by
  have hlength : ¬ (cmdBufferData :: (padding ++ segment)).length < sizeofCommand + sizeofData := by
    rw [List.length_cons, List.length_append, hpadding, Nat.add_comm 1]
    exact Nat.not_lt.mpr (Nat.succ_le_succ (Nat.le_add_right _ _))
  have hdrop : (cmdBufferData :: (padding ++ segment)).drop (sizeofCommand + sizeofData) =
      segment := by
    rw [Nat.add_comm, List.drop_succ_cons, ← hpadding, List.drop_left]
  simp only [receiveStreamer, receiving, ClientState.expect, StreamerCommand.value, ne_eq,
    not_true, if_false, ClientGenerator.packet, ClientState.header, if_neg hlength, hdrop]

/-- A segment that does not end the buffer. -/
theorem chunk_more {rxBuffer segment : List UInt8} {bufferType : UInt8} {remainingLength : Nat}
    {expectedChecksum : UInt32} (h : segment.length < remainingLength) :
    g.chunk raises (receiving rxBuffer bufferType remainingLength expectedChecksum) segment =
      g.set (receiving (rxBuffer ++ segment) bufferType (remainingLength - segment.length)
        expectedChecksum) := by
  have hne : ¬ remainingLength - segment.length = 0 := by omega
  simp only [ClientGenerator.chunk, receiving, Nat.min_eq_left h.le, List.take_length, if_neg hne]

/-- What the last segment of a buffer leads to. -/
def ClientGenerator.finish (g : ClientGenerator) (raises : UInt8 → List UInt8 → Bool)
    (bufferType : UInt8) (expectedChecksum : UInt32) (rxBuffer : List UInt8) : ClientGenerator :=
  if expectedChecksum ≠ 0 ∧ crc32 rxBuffer ≠ expectedChecksum then
    g.set ⟨.bufferBegin, some rxBuffer, some bufferType, some 0, some expectedChecksum⟩
  else
    g.process raises bufferType rxBuffer ⟨.bufferBegin, none, none, none, some expectedChecksum⟩

/-- A segment that ends the buffer: what exceeds it is dropped. -/
theorem chunk_last {rxBuffer segment : List UInt8} {bufferType : UInt8} {remainingLength : Nat}
    {expectedChecksum : UInt32} (h : remainingLength ≤ segment.length) :
    g.chunk raises (receiving rxBuffer bufferType remainingLength expectedChecksum) segment =
      g.finish raises bufferType expectedChecksum (rxBuffer ++ segment.take remainingLength) := by
  simp only [ClientGenerator.chunk, receiving, Nat.min_eq_right h, Nat.sub_self, if_true,
    ClientGenerator.finish]

/-- A packet of the streamer reaches a generator that runs. -/
theorem receivePacket_streamer {p : CpxPacket} (hvars : g.vars = some vars)
    (h : p.header.function = cpxFStreamer) :
    receivePacket raises g p = receiveStreamer raises g vars p.payload := by
  simp only [receivePacket, hvars, h, ne_eq, not_true, if_false]

end

end AiDeck.Streamer
