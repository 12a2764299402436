import AiDeck.Cpx.Types

/-! # The requests and transfers of the CPX SPI link

nanocockpit/lib/cpx/cpx_spi.c: how a send request is built, and what the three
phases of a transfer ask the SPI driver for. A failed assertion ends the program. -/
namespace AiDeck.Cpx

/-! ## cpx_spi.h -/

/-- `cpx_spi_header_t`: the length of the payload and the CPX header. -/
structure CpxSpiHeader where
  length : UInt16
  cpx : CpxHeader
  deriving DecidableEq, Repr

abbrev sizeofCpxSpiHeader : Nat := 4
abbrev cpxSpiMaxPacketLength : Nat := 4092
abbrev cpxSpiMtu : Nat := cpxSpiMaxPacketLength - sizeofCpxSpiHeader

/-- An address; `NULL` is 0. -/
abbrev Ptr := Nat

/-- The assertions of cpx_spi.c with the values they print. -/
inductive SpiAssertion where
  | packetLength (headLength tailLength : UInt16)
  | payloadHead (payloadHead : Ptr)
  | headLength (headLength : UInt16)
  | payloadTail (payloadTail : Ptr)
  | tailLength (tailLength : UInt16)
  | multipleSends
  | multipleReceives
  | bufferSize
  | txData
  | rxData
  | length (length : Nat)
  | noData
  deriving DecidableEq, Repr

/-- The format string. -/
def SpiAssertion.message : SpiAssertion → String
  | packetLength _ _ =>
    "Packet length (%d + %d bytes) exceeds max supported length of %d bytes (CPX_SPI_MTU).\n"
  | payloadHead _ => "payload_head %p is not 4-byte aligned\n"
  | headLength _ => "head_length %d is not a multiple of 4 bytes\n"
  | payloadTail _ => "payload_tail %p is not 4-byte aligned\n"
  | tailLength _ => "tail_length %d is not a multiple of 4 bytes\n"
  | multipleSends => "Multiple send requests in progress, not implemented!\n"
  | multipleReceives => "Multiple receive requests in progress, not implemented!\n"
  | bufferSize =>
    "Buffer must have enough space to contain every possible packet size (CPX_SPI_MTU)\n"
  | txData => "tx_data is not 4-byte aligned\n"
  | rxData => "rx_data is not 4-byte aligned\n"
  | length _ => "length (%d bits) is not a multiple of 4 bytes\n"
  | noData => "No tx_data nor rx_data, what are you trying to transfer?\n"

/-! ## Send requests -/

/-- `cpx_spi_send_req_t` as the functions below build it. The object holds pointers, so
the compiler places it, and `header` at its start, at a multiple of 4. -/
structure CpxSpiSendReq where
  address : Ptr
  header : CpxSpiHeader
  payloadHead : Ptr
  payloadTail : Ptr
  headLength : UInt16
  tailLength : UInt16
  address_aligned : address % 4 = 0
  address_ne : address ≠ 0
  payloadHead_aligned : payloadHead % 4 = 0
  payloadTail_aligned : payloadTail % 4 = 0
  headLength_words : headLength.toNat % 4 = 0
  tailLength_words : tailLength.toNat % 4 = 0
  length_le : headLength.toNat + tailLength.toNat ≤ cpxSpiMtu
  length_eq : header.length.toNat = headLength.toNat + tailLength.toNat

namespace CpxSpiSendReq

/-- `*req = {0}` at an address the compiler chose. -/
def zero (address : Ptr) (aligned : address % 4 = 0) (ne : address ≠ 0) : CpxSpiSendReq where
  address := address
  header := ⟨0, ⟨0, 0, 0, 0, 0, 0⟩⟩
  payloadHead := 0
  payloadTail := 0
  headLength := 0
  tailLength := 0
  address_aligned := aligned
  address_ne := ne
  payloadHead_aligned := rfl
  payloadTail_aligned := rfl
  headLength_words := rfl
  tailLength_words := rfl
  length_le := Nat.zero_le _
  length_eq := rfl

/-- The 16-bit length field holds every length up to the MTU. -/
theorem computedLength {head tail : UInt16} (h : head.toNat + tail.toNat ≤ cpxSpiMtu) :
    (UInt16.ofNat (head.toNat + tail.toNat)).toNat = head.toNat + tail.toNat := by
  have hmtu : head.toNat + tail.toNat ≤ 4088 := h
  rw [UInt16.toNat_ofNat']
  omega

/-- `cpx_spi_send_set_head`, `cpx_spi_send_compute_length` included. -/
def setHead (req : CpxSpiSendReq) (payloadHead : Ptr) (headLength : UInt16) :
    Except SpiAssertion CpxSpiSendReq :=
  if ha : payloadHead % 4 ≠ 0 then .error (.payloadHead payloadHead)
  else if hw : headLength.toNat % 4 ≠ 0 then .error (.headLength headLength)
  else if hl : headLength.toNat + req.tailLength.toNat > cpxSpiMtu then
    .error (.packetLength headLength req.tailLength)
  else .ok
    { req with
      payloadHead := payloadHead
      headLength := headLength
      header := { req.header with length := .ofNat (headLength.toNat + req.tailLength.toNat) }
      payloadHead_aligned := Decidable.not_not.mp ha
      headLength_words := Decidable.not_not.mp hw
      length_le := Nat.not_lt.mp hl
      length_eq := computedLength (Nat.not_lt.mp hl) }

/-- `cpx_spi_send_set_tail`, `cpx_spi_send_compute_length` included. -/
def setTail (req : CpxSpiSendReq) (payloadTail : Ptr) (tailLength : UInt16) :
    Except SpiAssertion CpxSpiSendReq :=
  if ha : payloadTail % 4 ≠ 0 then .error (.payloadTail payloadTail)
  else if hw : tailLength.toNat % 4 ≠ 0 then .error (.tailLength tailLength)
  else if hl : req.headLength.toNat + tailLength.toNat > cpxSpiMtu then
    .error (.packetLength req.headLength tailLength)
  else .ok
    { req with
      payloadTail := payloadTail
      tailLength := tailLength
      header := { req.header with length := .ofNat (req.headLength.toNat + tailLength.toNat) }
      payloadTail_aligned := Decidable.not_not.mp ha
      tailLength_words := Decidable.not_not.mp hw
      length_le := Nat.not_lt.mp hl
      length_eq := computedLength (Nat.not_lt.mp hl) }

theorem setHead_ok (req : CpxSpiSendReq) {payloadHead : Ptr} {headLength : UInt16}
    (ha : payloadHead % 4 = 0) (hw : headLength.toNat % 4 = 0)
    (hl : headLength.toNat + req.tailLength.toNat ≤ cpxSpiMtu) :
    ∃ req', req.setHead payloadHead headLength = .ok req' ∧ req'.headLength = headLength ∧
      req'.tailLength = req.tailLength := by
  have hle : ¬ headLength.toNat + req.tailLength.toNat > cpxSpiMtu := Nat.not_lt.mpr hl
  rw [setHead, dif_neg (not_not.mpr ha), dif_neg (not_not.mpr hw), dif_neg hle]
  exact ⟨_, rfl, rfl, rfl⟩

theorem setTail_ok (req : CpxSpiSendReq) {payloadTail : Ptr} {tailLength : UInt16}
    (ha : payloadTail % 4 = 0) (hw : tailLength.toNat % 4 = 0)
    (hl : req.headLength.toNat + tailLength.toNat ≤ cpxSpiMtu) :
    ∃ req', req.setTail payloadTail tailLength = .ok req' ∧ req'.headLength = req.headLength ∧
      req'.tailLength = tailLength ∧ req'.payloadTail = payloadTail := by
  have hle : ¬ req.headLength.toNat + tailLength.toNat > cpxSpiMtu := Nat.not_lt.mpr hl
  rw [setTail, dif_neg (not_not.mpr ha), dif_neg (not_not.mpr hw), dif_neg hle]
  exact ⟨_, rfl, rfl, rfl, rfl⟩

/-- `cpx_spi_send_req_init`. -/
def init (address : Ptr) (aligned : address % 4 = 0) (ne : address ≠ 0) (payloadHead : Ptr)
    (headLength : UInt16) (payloadTail : Ptr) (tailLength : UInt16) :
    Except SpiAssertion CpxSpiSendReq := do
  let req ← (zero address aligned ne).setHead payloadHead headLength
  req.setTail payloadTail tailLength

/-- `cpx_spi_send_max_tail_length`. -/
def maxTailLength (req : CpxSpiSendReq) : Nat :=
  let tailLength := cpxSpiMtu - req.headLength.toNat
  if tailLength % 4 ≠ 0 then tailLength - tailLength % 4 else tailLength

end CpxSpiSendReq

/-! ## Receive requests -/

/-- `cpx_spi_receive_req_t` with the buffer `cpx_spi_receive_req_init` allocates:
`pi_l2_malloc` returns a multiple of 4. -/
structure CpxSpiReceiveReq where
  address : Ptr
  header : CpxSpiHeader
  buffer : Ptr
  bufferSize : UInt16
  address_aligned : address % 4 = 0
  address_ne : address ≠ 0
  buffer_aligned : buffer % 4 = 0
  buffer_ne : buffer ≠ 0

/-! ## Transfers -/

inductive CsFlag where
  /-- `PI_SPI_CS_AUTO` -/
  | auto
  /-- `PI_SPI_CS_KEEP` -/
  | keep
  deriving DecidableEq, Repr

/-- A call of the SPI driver: `pi_spi_transfer_async`, `pi_spi_send_async` or
`pi_spi_receive_async`; `length` counts bits. -/
inductive SpiTransfer where
  | transfer (txData rxData : Ptr) (length : Nat) (flags : CsFlag)
  | send (txData : Ptr) (length : Nat) (flags : CsFlag)
  | receive (rxData : Ptr) (length : Nat) (flags : CsFlag)
  deriving DecidableEq, Repr

namespace SpiTransfer

def length : SpiTransfer → Nat
  | transfer _ _ length _ => length
  | send _ length _ => length
  | receive _ length _ => length

/-- Where the bytes clocked out are read. -/
def txData : SpiTransfer → Option Ptr
  | transfer tx _ _ _ => some tx
  | send tx _ _ => some tx
  | receive _ _ _ => none

/-- Where the bytes clocked in go. -/
def rxData : SpiTransfer → Option Ptr
  | transfer _ rx _ _ => some rx
  | send _ _ _ => none
  | receive rx _ _ => some rx

def flags : SpiTransfer → CsFlag
  | transfer _ _ _ flags => flags
  | send _ _ flags => flags
  | receive _ _ flags => flags

end SpiTransfer

/-- A call that a phase makes: of the driver, at whose end `done_task` is pushed, or of
`pi_task_push` for `done_task`. -/
inductive PhaseOp where
  | spi (transfer : SpiTransfer)
  | push
  deriving DecidableEq, Repr

/-- The calls of a phase, in order. -/
abbrev PhaseCalls := List PhaseOp

def spiTransferAsync (txData rxData : Ptr) (length : Nat) (flags : CsFlag) :
    Except SpiAssertion SpiTransfer :=
  if txData % 4 ≠ 0 then .error .txData
  else if rxData % 4 ≠ 0 then .error .rxData
  else if length / 8 % 4 ≠ 0 then .error (.length length)
  else if txData ≠ 0 ∧ rxData ≠ 0 then .ok (.transfer txData rxData length flags)
  else if txData ≠ 0 then .ok (.send txData length flags)
  else if rxData ≠ 0 then .ok (.receive rxData length flags)
  else .error .noData

/-- The part of `cpx_spi_t` the phases read: where `empty_header` lies. -/
structure EmptyHeader where
  address : Ptr
  address_aligned : address % 4 = 0
  address_ne : address ≠ 0

/-- Arithmetic of `size_t`, 32 bits on GAP8. -/
def sizeT (n : Int) : Nat := (n % 2 ^ 32).toNat

section
variable (emptyHeader : EmptyHeader) (sendReq : Option CpxSpiSendReq)
  (receiveReq : Option CpxSpiReceiveReq)

def cpxSpiTransferHeaderAsync : Except SpiAssertion PhaseCalls := do
  let transfer ← spiTransferAsync
    (match sendReq with | some req => req.address | none => emptyHeader.address)
    (match receiveReq with | some req => req.address | none => 0)
    (sizeofCpxSpiHeader * 8) .keep
  return [.spi transfer]

/-- `send_length` of both payload phases. -/
def sendLength : Nat := match sendReq with | some req => req.header.length.toNat | none => 0

/-- `head_length` of both payload phases. -/
def headLength : Nat := match sendReq with | some req => req.headLength.toNat | none => 0

/-- `receive_length` of both payload phases. -/
def receiveLength : Nat :=
  match receiveReq with | some req => min req.header.length.toNat cpxSpiMtu | none => 0

/-- `total_length` of both payload phases. -/
def totalLength : Nat := max (sendLength sendReq) (receiveLength receiveReq)

def cpxSpiTransferPayloadHeadAsync : Except SpiAssertion PhaseCalls :=
  let sendBuffer := match sendReq with | some req => req.payloadHead | none => 0
  let receiveBuffer := match receiveReq with | some req => req.buffer | none => 0
  let transferLength := headLength sendReq
  let endOfTransfer := totalLength sendReq receiveReq = transferLength
  let flags := if endOfTransfer then CsFlag.auto else .keep
  if transferLength = 0 then
    if endOfTransfer then .ok [.spi (.send emptyHeader.address (sizeofCpxSpiHeader * 8) flags)]
    else .ok [.push]
  else do
    let transfer ← spiTransferAsync sendBuffer receiveBuffer (transferLength * 8) flags
    return [.spi transfer]

/-- `remaining_length` before it is rounded up. -/
def remainingLength : Nat := sizeT (totalLength sendReq receiveReq - headLength sendReq : Int)

/-- `remaining_length` rounded up to a multiple of 4. -/
def roundUp (remaining : Nat) : Nat :=
  if remaining % 4 ≠ 0 then sizeT (remaining + (4 - remaining % 4)) else remaining

def cpxSpiTransferPayloadTailAsync : Except SpiAssertion PhaseCalls :=
  let sendBuffer := match sendReq with | some req => req.payloadTail | none => 0
  let receiveBuffer := match receiveReq with
    | some req => req.buffer + headLength sendReq
    | none => 0
  let remaining := remainingLength sendReq receiveReq
  if remaining = 0 then .ok [.push]
  else do
    let transfer ← spiTransferAsync sendBuffer receiveBuffer (sizeT (roundUp remaining * 8)) .auto
    return [.spi transfer]

end

/-! ## What the payload phases do -/

/-- The bytes a call stores in the receive buffer. -/
def PhaseOp.written : PhaseOp → Nat
  | .spi transfer => match transfer.rxData with
    | some _ => transfer.length / 8
    | none => 0
  | .push => 0

/-- The bytes a phase stores there. -/
def PhaseCalls.written (calls : PhaseCalls) : Nat := (calls.map PhaseOp.written).sum

/-- The first byte a call stores. -/
def PhaseOp.writtenFrom : PhaseOp → Option Ptr
  | .spi transfer => transfer.rxData
  | .push => none

section
variable (emptyHeader : EmptyHeader) (sendReq : Option CpxSpiSendReq) (req : CpxSpiReceiveReq)

theorem headLength_words : headLength sendReq % 4 = 0 := by
  cases sendReq with
  | none => rfl
  | some r => exact r.headLength_words

theorem headLength_le_sendLength : headLength sendReq ≤ sendLength sendReq := by
  cases sendReq with
  | none => exact Nat.le_refl 0
  | some r =>
    change r.headLength.toNat ≤ r.header.length.toNat
    rw [r.length_eq]
    exact Nat.le_add_right _ _

theorem sendLength_le : sendLength sendReq ≤ cpxSpiMtu := by
  cases sendReq with
  | none => exact Nat.zero_le _
  | some r =>
    change r.header.length.toNat ≤ _
    rw [r.length_eq]
    exact r.length_le

theorem totalLength_le : totalLength sendReq (some req) ≤ cpxSpiMtu :=
  Nat.max_le.mpr ⟨sendLength_le sendReq, Nat.min_le_right _ _⟩

theorem headLength_le_totalLength : headLength sendReq ≤ totalLength sendReq (some req) :=
  Nat.le_trans (headLength_le_sendLength sendReq) (Nat.le_max_left _ _)

theorem remainingLength_eq : remainingLength sendReq (some req) =
    totalLength sendReq (some req) - headLength sendReq := by
  have hhead := headLength_le_totalLength sendReq req
  have htotal : totalLength sendReq (some req) ≤ 4088 := totalLength_le sendReq req
  rw [remainingLength, sizeT]
  omega

/-- The address, if it is not `NULL`. -/
def nonNull (p : Ptr) : Option Ptr := if p = 0 then none else some p

/-- A transfer into the receive buffer is accepted by the driver. -/
theorem spiTransferAsync_ok {tx rx : Nat} (length : Nat) (flags : CsFlag) (htx : tx % 4 = 0)
    (hrx : rx % 4 = 0) (hne : rx ≠ 0) (hlen : length % 4 = 0) :
    ∃ t, spiTransferAsync tx rx (length * 8) flags = .ok t ∧ t.rxData = some rx ∧
      t.length = length * 8 ∧ t.txData = nonNull tx ∧ t.flags = flags := by
  have hwords : ¬ length * 8 / 8 % 4 ≠ 0 := by
    rw [Nat.mul_div_cancel _ (by omega)]; exact not_not_intro hlen
  rw [spiTransferAsync, if_neg (not_not_intro htx), if_neg (not_not_intro hrx), if_neg hwords]
  by_cases h : tx ≠ 0
  · rw [if_pos ⟨h, hne⟩]
    exact ⟨_, rfl, rfl, rfl, (if_neg h).symm, rfl⟩
  · rw [if_neg (fun hb => h hb.1), if_neg h, if_pos hne]
    exact ⟨_, rfl, rfl, rfl, (if_pos (not_not.mp h)).symm, rfl⟩

theorem transferHeader_ok : ∃ t, cpxSpiTransferHeaderAsync emptyHeader sendReq (some req) =
    .ok [.spi t] ∧ t.length = sizeofCpxSpiHeader * 8 ∧ t.flags = .keep := by
  have htx : (match sendReq with | some r => r.address | none => emptyHeader.address) % 4 = 0 := by
    cases sendReq with
    | none => exact emptyHeader.address_aligned
    | some r => exact r.address_aligned
  obtain ⟨t, ht, -, hlen, -, hflags⟩ := spiTransferAsync_ok sizeofCpxSpiHeader .keep htx
    req.address_aligned req.address_ne rfl
  refine ⟨t, ?_, hlen, hflags⟩
  simp only [cpxSpiTransferHeaderAsync, ht]
  rfl

/-- `send_buffer` of the head phase. -/
def headBuffer : Ptr := match sendReq with | some req => req.payloadHead | none => 0

/-- `send_buffer` of the tail phase. -/
def tailBuffer : Ptr := match sendReq with | some req => req.payloadTail | none => 0

theorem headBuffer_aligned : headBuffer sendReq % 4 = 0 := by
  cases sendReq with
  | none => rfl
  | some r => exact r.payloadHead_aligned

theorem tailBuffer_aligned : tailBuffer sendReq % 4 = 0 := by
  cases sendReq with
  | none => rfl
  | some r => exact r.payloadTail_aligned

/-- The head phase: a transfer of `head_length` bytes; without a head, one that only
releases the chip select, or nothing. -/
theorem transferPayloadHead_spec :
    ∃ op, cpxSpiTransferPayloadHeadAsync emptyHeader sendReq (some req) = .ok [op] ∧
      ((headLength sendReq = 0 ∧ op = if totalLength sendReq (some req) = 0 then
          .spi (.send emptyHeader.address (sizeofCpxSpiHeader * 8) .auto) else .push) ∨
        headLength sendReq ≠ 0 ∧ ∃ t, op = .spi t ∧ t.txData = nonNull (headBuffer sendReq) ∧
          t.rxData = some req.buffer ∧ t.length = headLength sendReq * 8 ∧
          t.flags = if totalLength sendReq (some req) = headLength sendReq then .auto else .keep) := by
  simp only [cpxSpiTransferPayloadHeadAsync]
  by_cases hzero : headLength sendReq = 0
  · rw [if_pos hzero, hzero]
    split
    · exact ⟨_, rfl, .inl ⟨rfl, rfl⟩⟩
    · exact ⟨_, rfl, .inl ⟨rfl, rfl⟩⟩
  · rw [if_neg hzero]
    obtain ⟨t, ht, hrx, hlen, htx, hflags⟩ := spiTransferAsync_ok (headLength sendReq)
      (if totalLength sendReq (some req) = headLength sendReq then .auto else .keep)
      (headBuffer_aligned sendReq) req.buffer_aligned req.buffer_ne (headLength_words sendReq)
    refine ⟨.spi t, ?_, .inr ⟨hzero, t, rfl, htx, hrx, hlen, hflags⟩⟩
    exact congrArg (Except.map fun t => [PhaseOp.spi t]) ht

/-- The head phase fills the receive buffer up to `head_length`. -/
theorem transferPayloadHead_ok :
    ∃ op, cpxSpiTransferPayloadHeadAsync emptyHeader sendReq (some req) = .ok [op] ∧
      op.written = headLength sendReq ∧
      (headLength sendReq ≠ 0 → op.writtenFrom = some req.buffer) := by
  obtain ⟨op, hop, ⟨hzero, heq⟩ | ⟨-, t, rfl, -, hrx, hlen, -⟩⟩ :=
    transferPayloadHead_spec emptyHeader sendReq req
  · refine ⟨op, hop, ?_, fun h => absurd hzero h⟩
    rw [heq, hzero]
    split <;> rfl
  · refine ⟨.spi t, hop, ?_, fun _ => hrx⟩
    rw [PhaseOp.written, hrx, hlen, Nat.mul_div_cancel _ (by omega)]

theorem roundUp_eq {n : Nat} (h : n ≤ cpxSpiMtu) : roundUp n = (n + 3) / 4 * 4 := by
  have hmtu : n ≤ 4088 := h
  rw [roundUp]
  split
  · rw [sizeT]; omega
  · omega

/-- The tail phase: a transfer of what is left, rounded up, or nothing. -/
theorem transferPayloadTail_spec :
    ∃ op, cpxSpiTransferPayloadTailAsync sendReq (some req) = .ok [op] ∧
      ((totalLength sendReq (some req) = headLength sendReq ∧ op = .push) ∨
        totalLength sendReq (some req) ≠ headLength sendReq ∧
        ∃ t, op = .spi t ∧ t.txData = nonNull (tailBuffer sendReq) ∧
          t.rxData = some (req.buffer + headLength sendReq) ∧
          t.length = (totalLength sendReq (some req) - headLength sendReq + 3) / 4 * 4 * 8 ∧
          t.flags = .auto) := by
  simp only [cpxSpiTransferPayloadTailAsync, remainingLength_eq]
  have htotal : totalLength sendReq (some req) ≤ 4088 := totalLength_le sendReq req
  have hhead := headLength_le_totalLength sendReq req
  by_cases hzero : totalLength sendReq (some req) - headLength sendReq = 0
  · rw [if_pos hzero]
    exact ⟨.push, rfl, .inl ⟨by omega, rfl⟩⟩
  · rw [if_neg hzero]
    have hround := roundUp_eq (n := totalLength sendReq (some req) - headLength sendReq)
      (Nat.le_trans (Nat.sub_le _ _) htotal)
    have hwords := headLength_words sendReq
    have halign : (req.buffer + headLength sendReq) % 4 = 0 := by
      rw [Nat.add_mod, req.buffer_aligned, hwords]
    have hne : req.buffer + headLength sendReq ≠ 0 := fun h =>
      req.buffer_ne (Nat.eq_zero_of_add_eq_zero_right h)
    rw [hround]
    generalize hrem : (totalLength sendReq (some req) - headLength sendReq + 3) / 4 * 4 = remaining
    have hbits : sizeT (remaining * 8) = remaining * 8 := by
      rw [sizeT]
      omega
    obtain ⟨t, ht, hrx, hlen, htx, hflags⟩ := spiTransferAsync_ok remaining .auto
      (tailBuffer_aligned sendReq) halign hne (by omega)
    refine ⟨.spi t, ?_, .inr ⟨by omega, t, rfl, htx, hrx, hlen, hflags⟩⟩
    rw [hbits]
    exact congrArg (Except.map fun t => [PhaseOp.spi t]) ht

/-- The tail phase goes on where the head phase stopped, up to the total length
rounded up. -/
theorem transferPayloadTail_ok :
    ∃ op, cpxSpiTransferPayloadTailAsync sendReq (some req) = .ok [op] ∧
      op.written = (totalLength sendReq (some req) - headLength sendReq + 3) / 4 * 4 ∧
      (op.written ≠ 0 → op.writtenFrom = some (req.buffer + headLength sendReq)) := by
  obtain ⟨op, hop, ⟨hdone, rfl⟩ | ⟨-, t, rfl, -, hrx, hlen, -⟩⟩ :=
    transferPayloadTail_spec sendReq req
  · refine ⟨.push, hop, ?_, fun h => absurd rfl h⟩
    rw [hdone, Nat.sub_self]
    rfl
  · refine ⟨.spi t, hop, ?_, fun _ => hrx⟩
    rw [PhaseOp.written, hrx, hlen, Nat.mul_div_cancel _ (by omega)]

end

end AiDeck.Cpx
