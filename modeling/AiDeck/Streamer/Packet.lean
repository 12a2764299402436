import AiDeck.Coroutine.List
import AiDeck.Cpx.Types
import AiDeck.Crc32

/-! # Streamer packets

The packed structures of nanocockpit/lib/streamer.c, which streamer.py declares too: a
command, a header that depends on it, and a segment of the buffer that is sent. -/
namespace AiDeck.Streamer
open AiDeck.Lib.Bytes AiDeck.Cpx AiDeck.Crc32 AiDeck.Coroutine

/-- `CPX_F_STREAMER`. -/
abbrev cpxFStreamer : BitVec 6 := 0x06

/-- `STREAMER_CMD_BUFFER_BEGIN` -/
abbrev cmdBufferBegin : UInt8 := 0x10
/-- `STREAMER_CMD_BUFFER_DATA` -/
abbrev cmdBufferData : UInt8 := 0x11

/-- `STREAMER_TYPE_IMAGE` -/
abbrev typeImage : UInt8 := 0x01

abbrev sizeofCommand : Nat := 1
abbrev sizeofBegin : Nat := 11
abbrev sizeofData : Nat := 3
/-- `sizeof(streamer_packet_t)` -/
abbrev sizeofPacket : Nat := 12

/-- `streamer_begin_t` without its padding. -/
structure StreamerBegin where
  type : UInt8
  size : UInt32
  checksum : UInt32
  deriving DecidableEq, Repr

namespace StreamerBegin

/-- The bytes of a literal: the padding is zero. -/
def toBytes (b : StreamerBegin) : List UInt8 :=
  b.type :: (toLE32 b.size ++ (toLE32 b.checksum ++ [0, 0]))

/-- The structure in the first bytes of `l`. -/
def ofBytes (l : List UInt8) : StreamerBegin :=
  ⟨l.getD 0 0, ofLE32 (l.drop 1), ofLE32 (l.drop 5)⟩

@[simp] theorem toBytes_length (b : StreamerBegin) : b.toBytes.length = sizeofBegin := rfl

@[simp] theorem ofBytes_toBytes (b : StreamerBegin) (l : List UInt8) :
    ofBytes (b.toBytes ++ l) = b := by
  cases b with
  | mk type size checksum =>
    have hsize : (toBytes ⟨type, size, checksum⟩ ++ l).drop 1 =
        toLE32 size ++ (toLE32 checksum ++ ([0, 0] ++ l)) := by simp [toBytes]
    have hchecksum : (toBytes ⟨type, size, checksum⟩ ++ l).drop 5 =
        toLE32 checksum ++ ([0, 0] ++ l) := by simp [toBytes, toLE32]
    rw [ofBytes, hsize, hchecksum, ofLE32_append, ofLE32_append]
    rfl

end StreamerBegin

/-- `streamer_packet_head_length` -/
def streamerPacketHeadLength (command : UInt8) : Except Stop Nat :=
  if command = cmdBufferBegin then .ok (sizeofCommand + sizeofBegin)
  else if command = cmdBufferData then .ok (sizeofCommand + sizeofData)
  else .error (.assertion "Unknown streamer_cmd_e %d")

theorem streamerPacketHeadLength_begin {command : UInt8} (h : command = cmdBufferBegin) :
    streamerPacketHeadLength command = .ok 12 := by
  rw [h]
  rfl

theorem streamerPacketHeadLength_data {command : UInt8} (h : command = cmdBufferData) :
    streamerPacketHeadLength command = .ok 4 := by
  rw [h]
  rfl

theorem begin_ne_data {command : UInt8} (h : command = cmdBufferBegin) : command ≠ cmdBufferData := by
  rw [h]
  decide

/-- `streamer_compute_checksum`; `streamer.py` writes the same in `_compute_checksum`. -/
def streamerComputeChecksum (buffer : List UInt8) : UInt32 :=
  let checksum := crc32 buffer
  -- a computed zero is sent as all ones: zero says that there is no checksum
  if checksum = 0 then 0xFFFFFFFF else checksum

theorem streamerComputeChecksum_ne (buffer : List UInt8) : streamerComputeChecksum buffer ≠ 0 := by
  rw [streamerComputeChecksum]
  split
  · decide
  · assumption

theorem streamerComputeChecksum_eq {buffer : List UInt8} (h : crc32 buffer ≠ 0) :
    streamerComputeChecksum buffer = crc32 buffer := if_neg h

end AiDeck.Streamer
