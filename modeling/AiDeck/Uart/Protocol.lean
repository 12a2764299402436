import AiDeck.Lib.Bytes
import AiDeck.Crc32

/-! # The UART receive parser

`uart_protocol_task` (nanocockpit/lib/uart_protocol.c) between two loop points.
A read asks the UART for an exact number of bytes and the task goes on when all
of them have arrived, so the stream is a function from a position and a run is a
function of the step number; a stream that ends is a run that stops early.

The buffer is the memory from `protocol->buffer` on. It is longer than
`UART_BUFFER_LENGTH`: the stores behind the largest message can end past it. -/
namespace AiDeck.Uart
open AiDeck.Lib.Bytes AiDeck.Crc32

/-! ## uart_protocol.h -/

abbrev uartBufferLength : Nat := 128
abbrev uartHeaderLength : Nat := 4
abbrev uartChecksumLength : Nat := 4
abbrev uartReadSize : Nat := 4

/-- The messages the parser knows. -/
inductive MsgKind where
  | state
  | rng
  | tof
  deriving DecidableEq, Repr

/-- `"!STA"`, `"!RNG"` and `"!TOF"`. -/
def MsgKind.header : MsgKind → List UInt8
  | .state => [0x21, 0x53, 0x54, 0x41]
  | .rng => [0x21, 0x52, 0x4E, 0x47]
  | .tof => [0x21, 0x54, 0x4F, 0x46]

/-- `sizeof(state_msg_t)`, packed: timestamp, position, velocity, acceleration,
quaternion, angular velocity. -/
def sizeofStateMsg : Nat := 4 + 3 * 2 + 3 * 2 + 3 * 2 + 4 + 3 * 2
/-- `sizeof(rng_msg_t)`: entropy. -/
def sizeofRngMsg : Nat := 4
/-- `sizeof(tof_msg_t)`: resolution, padding, data. -/
def sizeofTofMsg : Nat := 1 + 3 + 64
/-- `sizeof(inference_stamped_msg_t)`: timestamp and four floats. -/
def sizeofInferenceStampedMsg : Nat := 4 + 4 * 4

def MsgKind.length : MsgKind → Nat
  | .state => sizeofStateMsg
  | .rng => sizeofRngMsg
  | .tof => sizeofTofMsg

/-- The anonymous union of `uart_msg_t`. -/
def sizeofUnion : Nat :=
  max (max sizeofStateMsg sizeofRngMsg) (max sizeofTofMsg sizeofInferenceStampedMsg)

def offsetofChecksum : Nat := uartHeaderLength + sizeofUnion
def offsetofRecvTimestamp : Nat := offsetofChecksum + 4
def sizeofUartMsg : Nat := offsetofRecvTimestamp + 4

/-- A `uart_msg_t` as the callback finds it. -/
structure UartMsg where
  header : List UInt8
  body : List UInt8
  checksum : UInt32
  recvTimestamp : UInt32
  deriving DecidableEq

/-! ## The task's state -/

/-- The points of `uart_protocol_task` a step starts from. -/
inductive Point where
  /-- top of the outer loop -/
  | restart
  /-- top of the `do` loop -/
  | scan
  /-- one more read inside the `do` loop -/
  | refill
  /-- after the `do` loop -/
  | accept
  /-- the rest of the message -/
  | body
  /-- the message is complete in the buffer -/
  | check
  /-- the checksum is right -/
  | deliver
  deriving DecidableEq, Repr

inductive AccessKind where
  | uartRead
  | compare
  | load
  | store
  deriving DecidableEq, Repr

/-- An access to `length` bytes at `offset` in the buffer, made when
`available` bytes had been received into it. -/
structure Access where
  kind : AccessKind
  offset : Nat
  length : Nat
  available : Nat
  deriving DecidableEq, Repr

/-- A call of `message_callback`: the message, its offset in the buffer and the
counters at that moment. -/
structure Delivery where
  message : UartMsg
  offset : Nat
  availableLength : Nat
  totalLength : Nat
  received : Nat
  deriving DecidableEq

/-- Where the message handed over starts in the stream: the buffer holds the last
`availableLength` bytes received. -/
def Delivery.start (d : Delivery) : Nat := d.received - d.availableLength + d.offset

/-- The static variables of the task and its buffer. `received` counts the bytes
taken from the UART; `accesses` and `deliveries` are the history of the run. -/
structure Parser where
  point : Point
  buffer : Nat → UInt8
  message : Nat
  availableLength : Nat
  discardedLength : Nat
  messageLength : Nat
  totalLength : Nat
  received : Nat
  accesses : List Access
  deliveries : List Delivery

/-- The task at its start, over any memory. -/
def Parser.init (buffer : Nat → UInt8) : Parser :=
  ⟨.restart, buffer, 0, 0, 0, 0, 0, 0, [], []⟩

namespace Parser

def access (s : Parser) (kind : AccessKind) (offset length : Nat) : Parser :=
  { s with accesses := s.accesses ++ [⟨kind, offset, length, s.availableLength⟩] }

/-- `available_length += uart_read_async(…, buffer + available_length, size, …)`
and the wait for its end. -/
def uartRead (s : Parser) (uart : Nat → UInt8) (size : Nat) : Parser :=
  let s := s.access .uartRead s.availableLength size
  { s with
    buffer := overwrite s.buffer s.availableLength (segment uart s.received size)
    availableLength := s.availableLength + size
    received := s.received + size }

/-- A store of one 32-bit word. -/
def store (s : Parser) (offset : Nat) (word : UInt32) : Parser :=
  let s := s.access .store offset 4
  { s with buffer := overwrite s.buffer offset (toLE32 word) }

end Parser

/-- The first header of the three that equals the bytes at `message`. -/
def matchHeader (m : Nat → UInt8) (message : Nat) : Option MsgKind :=
  if segment m message uartHeaderLength = MsgKind.state.header then some .state
  else if segment m message uartHeaderLength = MsgKind.rng.header then some .rng
  else if segment m message uartHeaderLength = MsgKind.tof.header then some .tof
  else none

/-! ## One step of uart_protocol_task

The sums of the counters stay below 256, so the 32-bit additions of the source
are additions of naturals; only `remaining_length` is signed. -/

/-- Lines 50 to 58. -/
def stepRestart (uart : Nat → UInt8) (s : Parser) : Parser :=
  let s := { s with availableLength := 0, discardedLength := 0, messageLength := 0 }
  { s.uartRead uart uartReadSize with point := .scan }

/-- Lines 61 to 83. -/
def stepScan (s : Parser) : Parser :=
  let t := { s.access .compare s.discardedLength uartHeaderLength with message := s.discardedLength }
  match matchHeader s.buffer s.discardedLength with
  | some k => { t with messageLength := k.length, point := .accept }
  | none =>
    let discardedLength := s.discardedLength + 1
    if discardedLength + uartReadSize > uartBufferLength then
      { t with discardedLength := discardedLength, point := .accept }
    else if discardedLength + uartHeaderLength > s.availableLength then
      { t with discardedLength := discardedLength, point := .refill }
    else { t with discardedLength := discardedLength, point := .scan }

/-- Lines 91 to 104. -/
def stepAccept (s : Parser) : Parser :=
  if s.messageLength = 0 then { s with point := .restart }
  else
    let totalLength := s.discardedLength + uartHeaderLength + s.messageLength + uartChecksumLength
    if totalLength > uartBufferLength then { s with totalLength := totalLength, point := .restart }
    else { s with totalLength := totalLength, point := .body }

/-- Lines 106 to 112. -/
def stepBody (uart : Nat → UInt8) (s : Parser) : Parser :=
  let remainingLength : Int := s.totalLength - s.availableLength
  if remainingLength > 0 then { s.uartRead uart remainingLength.toNat with point := .check }
  else { s with point := .check }

/-- Lines 114 and 115: the checksum moves to its place in `uart_msg_t` and the
time of reception is stored behind it. -/
def Parser.complete (now : UInt32) (s : Parser) : Parser :=
  let received := s.message + uartHeaderLength + s.messageLength
  ((s.access .load received uartChecksumLength).store (s.message + offsetofChecksum)
    (ofLE32 (segment s.buffer received 4))).store (s.message + offsetofRecvTimestamp) now

/-- Lines 114 to 123. -/
def stepCheck (now : UInt32) (s : Parser) : Parser :=
  let t := s.complete now
  let u := (t.access .load t.message (uartHeaderLength + t.messageLength)).access .load
    (t.message + offsetofChecksum) 4
  if crc32 (segment t.buffer t.message (uartHeaderLength + t.messageLength)) ≠
      ofLE32 (segment t.buffer (t.message + offsetofChecksum) 4) then
    { u with point := .restart }
  else { u with point := .deliver }

/-- The `uart_msg_t` at `message`. -/
def Parser.readMessage (s : Parser) : UartMsg where
  header := segment s.buffer s.message uartHeaderLength
  body := segment s.buffer (s.message + uartHeaderLength) sizeofUnion
  checksum := ofLE32 (segment s.buffer (s.message + offsetofChecksum) 4)
  recvTimestamp := ofLE32 (segment s.buffer (s.message + offsetofRecvTimestamp) 4)

/-- Lines 125 to 128: the callback runs to its end before the loop goes on. -/
def stepDeliver (s : Parser) : Parser :=
  { s with
    deliveries := s.deliveries ++
      [⟨s.readMessage, s.message, s.availableLength, s.totalLength, s.received⟩]
    point := .restart }

/-- One step of the task; `now` is what `time_get_us` returns in it. -/
def uartProtocolTask (uart : Nat → UInt8) (now : UInt32) (s : Parser) : Parser :=
  match s.point with
  | .restart => stepRestart uart s
  | .scan => stepScan s
  | .refill => { s.uartRead uart uartReadSize with point := .scan }
  | .accept => stepAccept s
  | .body => stepBody uart s
  | .check => stepCheck now s
  | .deliver => stepDeliver s

/-- The surroundings of a run: what the memory held before, the bytes that arrive
and the clock at each step. -/
structure World where
  memory : Nat → UInt8
  uart : Nat → UInt8
  timeGetUs : Nat → UInt32

def run (w : World) : Nat → Parser
  | 0 => Parser.init w.memory
  | n + 1 => uartProtocolTask w.uart (w.timeGetUs n) (run w n)

end AiDeck.Uart
