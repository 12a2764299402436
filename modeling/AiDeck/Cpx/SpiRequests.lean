import AiDeck.Coroutine.Runtime
import AiDeck.Cpx.Spi

/-! # Requests of the SPI link

The part of `cpx_spi_t` (nanocockpit/lib/cpx/cpx_spi.h) that says what is asked of the
link, and the two functions that ask. -/
namespace AiDeck.Cpx
open AiDeck.Coroutine

/-- `CPX_SPI_EVENT_NINA_RTT`, `CPX_SPI_EVENT_SEND` and `CPX_SPI_EVENT_RECEIVE`. -/
abbrev eventNinaRtt : BitVec 32 := 1
abbrev eventSend : BitVec 32 := 2
abbrev eventReceive : BitVec 32 := 4

/-- The requests in progress and the tasks to push at their ends; `NULL` is `none`. -/
structure CpxSpi (SendReq ReceiveReq Done : Type) where
  sendReq : Option SendReq
  sendDone : Option Done
  receiveReq : Option ReceiveReq
  receiveDone : Option Done

namespace CpxSpi

variable {SendReq ReceiveReq Done : Type}

def withSend (s : CpxSpi SendReq ReceiveReq Done) (req : SendReq) (done : Done) :
    CpxSpi SendReq ReceiveReq Done :=
  { s with sendReq := some req, sendDone := some done }

def withReceive (s : CpxSpi SendReq ReceiveReq Done) (req : ReceiveReq) (done : Done) :
    CpxSpi SendReq ReceiveReq Done :=
  { s with receiveReq := some req, receiveDone := some done }

def clearSend (s : CpxSpi SendReq ReceiveReq Done) : CpxSpi SendReq ReceiveReq Done :=
  { s with sendReq := none }

def clearReceive (s : CpxSpi SendReq ReceiveReq Done) : CpxSpi SendReq ReceiveReq Done :=
  { s with receiveReq := none }

@[simp] theorem clearSend_sendReq (s : CpxSpi SendReq ReceiveReq Done) :
    s.clearSend.sendReq = none := rfl

end CpxSpi

section
variable {Ctx Event Group Task SendReq ReceiveReq Done : Type} [DecidableEq Group]

def cpxSpiSendAsync (rt : Runtime Ctx Event Group Task) (events : Group)
    (cpxSpi : CpxSpi SendReq ReceiveReq Done) (req : SendReq) (doneTask : Done) :
    Except Stop (Runtime Ctx Event Group Task × CpxSpi SendReq ReceiveReq Done) :=
  if cpxSpi.sendReq.isSome then
    .error (.assertion SpiAssertion.multipleSends.message)
  else .ok (coEventGroupSet rt events eventSend, cpxSpi.withSend req doneTask)

/-- `bufferSize` is `req->buffer_size`. -/
def cpxSpiReceiveAsync (rt : Runtime Ctx Event Group Task) (events : Group)
    (cpxSpi : CpxSpi SendReq ReceiveReq Done) (req : ReceiveReq) (bufferSize : UInt16)
    (doneTask : Done) :
    Except Stop (Runtime Ctx Event Group Task × CpxSpi SendReq ReceiveReq Done) :=
  if cpxSpi.receiveReq.isSome then
    .error (.assertion SpiAssertion.multipleReceives.message)
  else if bufferSize.toNat ≠ cpxSpiMtu then
    .error (.assertion SpiAssertion.bufferSize.message)
  else .ok (coEventGroupSet rt events eventReceive, cpxSpi.withReceive req doneTask)

end

end AiDeck.Cpx
