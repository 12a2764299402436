import AiDeck.Lib.Bytes
import AiDeck.Cpx.Types

/-! # The TCP transport of the host client

`TCPClientTransport` (aideck_cpx_streamer/cpx/transport/tcp.py): the packets on the
wire, `send`, and the generator `receive` over the items of `_receive_stream`. -/
namespace AiDeck.Host
open AiDeck.Lib.Bytes AiDeck.Cpx

/-- A `CPXPacket`. -/
structure CpxPacket where
  header : CpxHeader
  payload : List UInt8
  deriving DecidableEq

/-- A half word and a CPX header: the header of either transport. -/
theorem ofBytes_behind (w : UInt16) (h : CpxHeader) (l : List UInt8) :
    ofLE16 (toLE16 w ++ h.toBytes ++ l) = w ∧
      CpxHeader.ofBytes ((toLE16 w ++ h.toBytes ++ l).drop 2) = h := by
  rw [List.append_assoc]
  exact ⟨ofLE16_toLE16 w _, CpxHeader.ofBytes_toBytes h l⟩

structure TcpHeader where
  length : UInt16
  cpx : CpxHeader
  deriving DecidableEq

abbrev sizeofTcpHeader : Nat := 4
abbrev cpxTcpMaxFrameLength : Nat := 4092
abbrev cpxTcpMtu : Nat := cpxTcpMaxFrameLength - sizeofTcpHeader

namespace TcpHeader

def toBytes (h : TcpHeader) : List UInt8 := toLE16 h.length ++ h.cpx.toBytes

/-- `TCPHeader.from_buffer_copy`: the rest of the buffer is not read. -/
def fromBufferCopy (buffer : List UInt8) : TcpHeader :=
  ⟨ofLE16 buffer, CpxHeader.ofBytes (buffer.drop 2)⟩

@[simp] theorem toBytes_length (h : TcpHeader) : h.toBytes.length = sizeofTcpHeader := rfl

@[simp] theorem fromBufferCopy_toBytes (h : TcpHeader) (l : List UInt8) :
    fromBufferCopy (h.toBytes ++ l) = h := by
  obtain ⟨hlength, hcpx⟩ := ofBytes_behind h.length h.cpx l
  rw [fromBufferCopy, toBytes, hlength, hcpx]

end TcpHeader

/-! ## Sending -/

/-- The header of `send`: the 16-bit field keeps the low bits of the length. -/
def CpxPacket.tcpHeader (packet : CpxPacket) : TcpHeader :=
  ⟨.ofNat packet.payload.length, packet.header⟩

/-- `bytes(header) + bytes(packet.payload)`. -/
def CpxPacket.encode (packet : CpxPacket) : List UInt8 :=
  packet.tcpHeader.toBytes ++ packet.payload

/-- What `send` passes to `sendall`. -/
def send (isConnected : Bool) (packet : CpxPacket) : Option (List UInt8) :=
  if isConnected then some packet.encode else none

theorem CpxPacket.encode_length (packet : CpxPacket) :
    packet.encode.length = sizeofTcpHeader + packet.payload.length := by
  rw [encode, List.length_append, TcpHeader.toBytes_length]

/-! ## Receiving -/

/-- `state` of `receive` together with `tcp_header`, which is set exactly in
`WAIT_PAYLOAD`. -/
inductive ReceiveState where
  | waitHeader
  | waitPayload (tcpHeader : TcpHeader)
  deriving DecidableEq

structure Receiver where
  buffer : List UInt8
  state : ReceiveState
  deriving DecidableEq

/-- The assignments made when a connection starts. -/
def Receiver.reset : Receiver := ⟨[], .waitHeader⟩

/-- The generator `receive`: its variables, `none` once the loop was left by
`break`, and what it has yielded. -/
structure Generator where
  receiver : Option Receiver
  yields : List (Bool × Option CpxPacket)
  deriving DecidableEq

/-- The body of the loop after `buffer += chunk`. -/
def Generator.parse (g : Generator) (buffer : List UInt8) (state : ReceiveState) : Generator :=
  match state with
  | .waitHeader =>
    if buffer.length < sizeofTcpHeader then { g with receiver := some ⟨buffer, state⟩ }
    else
      { g with receiver := some ⟨buffer.drop sizeofTcpHeader,
                .waitPayload (TcpHeader.fromBufferCopy buffer)⟩ }
  | .waitPayload tcpHeader =>
    let expectedLength := tcpHeader.length.toNat
    if expectedLength > cpxTcpMtu then { g with receiver := none }
    else if buffer.length < expectedLength then { g with receiver := some ⟨buffer, state⟩ }
    else
      { receiver := some ⟨buffer.drop expectedLength, .waitHeader⟩
        yields := g.yields ++ [(false, some ⟨tcpHeader.cpx, buffer.take expectedLength⟩)] }

/-- The loop body for one item `(reset, chunk)` of `_receive_stream`. -/
def receiveItem (g : Generator) (item : Bool × List UInt8) : Generator :=
  match g.receiver with
  | none => g
  | some receiver =>
    if item.1 then
      { g with yields := g.yields ++ [(true, none)] }.parse item.2 .waitHeader
    else g.parse (receiver.buffer ++ item.2) receiver.state

/-- `receive` over the items of `_receive_stream`. The variables have no value before
the first item, which is a reset. -/
def receive (items : List (Bool × List UInt8)) : Generator :=
  items.foldl receiveItem ⟨some .reset, []⟩

/-- The items of one connection: the reset and then what `recv` returns. -/
def connection (chunks : List (List UInt8)) : List (Bool × List UInt8) :=
  (true, []) :: chunks.map fun chunk => (false, chunk)

theorem receive_connection_concat (chunks : List (List UInt8)) (chunk : List UInt8) :
    receive (connection (chunks ++ [chunk])) =
      receiveItem (receive (connection chunks)) (false, chunk) := by
  rw [receive, connection, List.map_append, List.map_singleton, ← List.cons_append,
    List.foldl_append]
  rfl

end AiDeck.Host
