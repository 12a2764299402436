import AiDeck.Wifi.Stream

/-! # Printing to the console

`cpxPrintToConsole` (lib/cpx/src/cpx.c) formats into the `data` of a packet and sends it; the
length it sends is the one `vsnprintf` returns. -/
namespace AiDeck.Com
open AiDeck.Lib.Bytes AiDeck.Cpx AiDeck.Wifi

/-- `CPXConsoleTarget_t`. -/
inductive CpxConsoleTarget where
  | logToWifi
  | logToCrtp
  deriving DecidableEq, Repr

def CpxConsoleTarget.target : CpxConsoleTarget → BitVec 3
  | logToWifi => 3
  | logToCrtp => 1

/-- `vsnprintf(s, n, …)` for the formatted text: the memory and the length returned, which is
that of the whole text. -/
def vsnprintf (mem : Nat → UInt8) (s n : Nat) (text : List UInt8) : (Nat → UInt8) × Nat :=
  if n = 0 then (mem, text.length)
  else (overwrite mem s (text.take (n - 1) ++ [0]), text.length)

/-- `consoleTx`, its `data` being `sizeofData` bytes of memory from an address on. -/
structure ConsoleTx where
  route : CpxRouting
  dataLength : UInt16
  data : Nat

/-- The packet as `memcpy` reads it. -/
def ConsoleTx.packet (consoleTx : ConsoleTx) (mem : Nat → UInt8) : CpxPacket :=
  { route := consoleTx.route
    dataLength := consoleTx.dataLength
    data := segment mem consoleTx.data consoleTx.dataLength.toNat }

/-- `cpxPrintToConsole` once it has the semaphore, up to the call of
`cpxSendPacketBlocking`. -/
def cpxPrintToConsole (consoleTx : ConsoleTx) (mem : Nat → UInt8) (target : CpxConsoleTarget)
    (text : List UInt8) : ConsoleTx × (Nat → UInt8) :=
  let (mem, len) := vsnprintf mem consoleTx.data sizeofData text
  let route := { consoleTx.route with destination := target.target, source := 4, function := 2 }
  ({ consoleTx with route := route, dataLength := .ofNat (len + 1) }, mem)

/-- The packet handed to `cpxSendPacketBlocking`. -/
def consolePacket (consoleTx : ConsoleTx) (mem : Nat → UInt8) (target : CpxConsoleTarget)
    (text : List UInt8) : CpxPacket :=
  let (consoleTx, mem) := cpxPrintToConsole consoleTx mem target text
  consoleTx.packet mem

/-- The length is that of some data, the copy to `txpPacked` stays in it, and the length on
the wire is within the MTU. -/
def Fits (txpPacked : Packet) (packet : CpxPacket) : Prop :=
  packet.dataLength.toNat ≤ sizeofData ∧
    ∃ p, cpxSendPacketBlocking txpPacked packet = .ok p ∧ p.len.toNat ≤ mtu

section
variable {txpPacked : Packet} {packet : CpxPacket}

theorem cpxSendPacketBlocking_len (hdata : packet.data.length = packet.dataLength.toNat)
    (hlength : packet.dataLength.toNat ≤ sizeofData) :
    ∃ p, cpxSendPacketBlocking txpPacked packet = .ok p ∧ p.len = packet.dataLength + 2 := by
  change packet.dataLength.toNat ≤ 1020 at hlength
  generalize hroute : (packRoute packet.route txpPacked.route.reserved).toBytes = route
  have hroute' : route.length = 2 := hroute ▸ rfl
  generalize hl : toLE16 (packet.dataLength + 2) ++
    (route ++ packet.data.take packet.dataLength.toNat) = l
  have hfits : 0 + l.length ≤ sizeofPacket := by
    rw [← hl, List.length_append, List.length_append, List.length_take, hroute']
    change 0 + (2 + (2 + min _ _)) ≤ 1024
    omega
  refine ⟨txpPacked.store 0 l hfits, ?_, ?_⟩
  · simp only [cpxSendPacketBlocking, hroute, hl, dif_pos hfits]
  · have hbytes : (txpPacked.store 0 l hfits).bytes = l ++ txpPacked.bytes.drop (0 + l.length) := rfl
    rw [Packet.len, hbytes, ← hl, List.append_assoc, ofLE16_toLE16]

/-- A packet with all the data its length says. -/
theorem fits_iff (hdata : packet.data.length = packet.dataLength.toNat) :
    Fits txpPacked packet ↔ packet.dataLength.toNat ≤ sizeofData := by
  refine ⟨And.left, fun hlength => ⟨hlength, ?_⟩⟩
  obtain ⟨p, hsend, hlen⟩ : ∃ p, cpxSendPacketBlocking txpPacked packet = .ok p ∧
      p.len = packet.dataLength + 2 := cpxSendPacketBlocking_len hdata hlength
  refine ⟨p, hsend, ?_⟩
  rw [hlen, UInt16.toNat_add]
  exact (Nat.mod_le _ _).trans (Nat.add_le_add_right hlength 2)

end

section
variable (txpPacked : Packet) (consoleTx : ConsoleTx) (mem : Nat → UInt8)
  (target : CpxConsoleTarget) (text : List UInt8)

/-- The text never leaves `data`. -/
theorem vsnprintf_inside {i : Nat} (hi : i < consoleTx.data ∨ consoleTx.data + sizeofData ≤ i) :
    (cpxPrintToConsole consoleTx mem target text).2 i = mem i := by
  have hlength : (text.take (sizeofData - 1) ++ [0]).length ≤ sizeofData := by
    rw [List.length_append, List.length_take, List.length_singleton]
    change min 1019 _ + 1 ≤ 1020
    omega
  change overwrite mem consoleTx.data (text.take (sizeofData - 1) ++ [0]) i = mem i
  rcases hi with hi | hi
  · exact overwrite_before _ _ hi
  · exact overwrite_after _ _ (by omega)

theorem consolePacket_dataLength :
    (consolePacket consoleTx mem target text).dataLength.toNat = (text.length + 1) % 2 ^ 16 :=
  UInt16.toNat_ofNat'

theorem consolePacket_length :
    (consolePacket consoleTx mem target text).data.length =
      (consolePacket consoleTx mem target text).dataLength.toNat :=
  segment_length _ _ _

/-- **A message fits if and only if its length and the terminating zero do**, the length
being taken modulo 2^16. -/
theorem console_fits_iff :
    Fits txpPacked (consolePacket consoleTx mem target text) ↔
      (text.length + 1) % 2 ^ 16 ≤ sizeofData := by
  rw [fits_iff (consolePacket_length consoleTx mem target text), consolePacket_dataLength]

/-- One byte of text too many: the copy reads and writes behind both arrays. -/
theorem console_outside :
    ¬ Fits .zero (consolePacket ⟨⟨0, 0, 0, 0, 0⟩, 0, 0⟩ (fun _ => 0) .logToCrtp
      (List.replicate 1020 97)) := by
  have hlength := consolePacket_dataLength ⟨⟨0, 0, 0, 0, 0⟩, 0, 0⟩ (fun _ => 0) .logToCrtp
    (List.replicate 1020 97)
  rw [List.length_replicate] at hlength
  rintro ⟨hle, -⟩
  rw [hlength] at hle
  revert hle
  decide

end

end AiDeck.Com
