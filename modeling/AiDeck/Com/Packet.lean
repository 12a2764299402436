import AiDeck.Lib.Bytes
import AiDeck.Cpx.Types

/-! # Packets of the CPX library

`packet_t` (lib/cpx/inc/com.h) and `CPXPacketPacked_t` (lib/cpx/src/cpx.c) declare the same
1024 bytes: a length, two bytes of routing that count as data, and the data. -/
namespace AiDeck.Com
open AiDeck.Lib.Bytes AiDeck.Cpx

abbrev mtu : Nat := 1022
abbrev cpxHeaderSize : Nat := 2
/-- `sizeof(packet_t)` -/
abbrev sizeofPacket : Nat := 2 + mtu
/-- `sizeof` of the `data` of a `CPXPacket_t` -/
abbrev sizeofData : Nat := mtu - cpxHeaderSize

/-- Why a task does not go on: a transfer or a copy that leaves its buffers, an entry read or
written outside of its table, or a `configASSERT`. -/
inductive Fault where
  | outside
  | assertion
  deriving DecidableEq, Repr

structure Packet where
  bytes : List UInt8
  size : bytes.length = sizeofPacket
  deriving DecidableEq

/-- `memset(p, 0, sizeof(packet_t))` -/
def Packet.zero : Packet := ⟨List.replicate sizeofPacket 0, List.length_replicate⟩

namespace Packet

/-- `len` and `wireLength`. -/
def len (p : Packet) : UInt16 := ofLE16 p.bytes

/-- The length and as many bytes as it says. -/
def message (p : Packet) : List UInt8 := p.bytes.take (2 + p.len.toNat)

/-- Store `l` from `offset` on. -/
def store (p : Packet) (offset : Nat) (l : List UInt8) (h : offset + l.length ≤ sizeofPacket) :
    Packet :=
  ⟨p.bytes.take offset ++ l ++ p.bytes.drop (offset + l.length), by
    have hsize := p.size
    simp only [List.length_append, List.length_take, List.length_drop]
    omega⟩

def route (p : Packet) : CpxHeader := CpxHeader.ofBytes (p.bytes.drop 2)

def data (p : Packet) : List UInt8 := p.bytes.drop (2 + cpxHeaderSize)

end Packet

/-- `CPXRouting_t`. -/
structure CpxRouting where
  destination : BitVec 3
  source : BitVec 3
  lastPacket : BitVec 1
  function : BitVec 6
  version : BitVec 2
  deriving DecidableEq, Repr

/-- `CPXPacket_t` with the bytes of `data` that `dataLength` says. -/
structure CpxPacket where
  route : CpxRouting
  dataLength : UInt16
  data : List UInt8
  deriving DecidableEq, Repr

end AiDeck.Com
