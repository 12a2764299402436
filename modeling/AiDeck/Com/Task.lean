import AiDeck.Lib.Transition
import AiDeck.Com.Transfer

/-! # The link task

`com_task` of lib/cpx/src/com.c with the tasks that call `com_write` and `com_read`, and the pin by
which the NINA asks for a transfer. Both queues and the event group are those of FreeRTOS. -/
namespace AiDeck.Com
open AiDeck.Lib AiDeck.Lib.Bytes

abbrev txqSize : Nat := 80
abbrev rxqSize : Nat := 5

/-- `NINA_RTT_BIT` and `TX_QUEUE_BIT`. -/
structure EventBits where
  nina : Bool
  txQueue : Bool
  deriving DecidableEq, Repr

def EventBits.none : EventBits := ⟨false, false⟩

/-- What `com_task` does next. -/
inductive ComPoint where
  /-- `pi_gpio_pin_read` -/
  | reading
  /-- `if (startupESPRTTValue > 0)` -/
  | starting
  /-- The head of the loop. -/
  | checking
  /-- `xEventGroupWaitBits` for either bit -/
  | firstWait
  /-- `if (uxQueueMessagesWaiting(txq) > 0)` and the call of `xQueueReceive` -/
  | taking
  | receiving
  /-- `if (tx_buff.len > 0)` -/
  | asking
  /-- `xEventGroupWaitBits` for `NINA_RTT_BIT` -/
  | secondWait
  /-- `if ((evBits & NINA_RTT_BIT) == NINA_RTT_BIT || tx_buff.len > 0)` -/
  | initiating
  /-- Between the start of the first transfer and the end of the second. -/
  | transferring
  /-- `if (rx_buff.len > 0)` and `xQueueSend` -/
  | queueing
  /-- A transfer has left its buffers. -/
  | outside
  deriving DecidableEq, Repr

/-- A transfer that was made: the packet in `tx_buff`, what the ESP32 clocked out, `sizeLeft`, and
the packet in `rx_buff`. -/
structure ComTransfer where
  tx : Packet
  esp : Nat → UInt8
  sizeLeft : Int
  rx : Packet

/-- `writers` is the number of tasks in `com_write` between `xQueueSend` and `xEventGroupSetBits`.
The fields from `written` on are the history: packets written, put into `rxq` and read, edges of
the pin, those for which no bit was set, and transfers started and made. -/
structure ComState where
  point : ComPoint
  startupEspRttValue : Bool
  evBits : EventBits
  evGroup : EventBits
  txq : List Packet
  rxq : List Packet
  txBuff : Packet
  rxBuff : Packet
  gap8Rtt : Bool
  ninaRtt : Bool
  ninaRttNotif : Bool
  writers : Nat
  written : List Packet
  put : List Packet
  read : List Packet
  edges : Nat
  missed : Nat
  started : Nat
  transfers : List ComTransfer

/-- After `xTaskCreate` in `com_init`. -/
def ComState.start : ComState where
  point := .reading
  startupEspRttValue := false
  evBits := .none
  evGroup := .none
  txq := []
  rxq := []
  txBuff := .zero
  rxBuff := .zero
  gap8Rtt := false
  ninaRtt := false
  ninaRttNotif := false
  writers := 0
  written := []
  put := []
  read := []
  edges := 0
  missed := 0
  started := 0
  transfers := []

namespace ComState

def goto (s : ComState) (point : ComPoint) : ComState := { s with point := point }

/-- `xEventGroupSetBits(evGroup, NINA_RTT_BIT)` -/
def setNinaBit (s : ComState) : ComState :=
  { s with evGroup := { s.evGroup with nina := true } }

/-- A statement of `com_task`, if it does not wait. -/
def taskStep (s : ComState) : Option ComState :=
  match s.point with
  | .reading => some { s with startupEspRttValue := s.ninaRtt, point := .starting }
  | .starting =>
    some ((if s.startupEspRttValue then { s.setNinaBit with missed := 0 } else s).goto .checking)
  | .checking =>
    if s.txq.length = 0 then some (s.goto .firstWait)
    else some { s with evBits := .none, point := .taking }
  | .firstWait =>
    if s.evGroup.nina || s.evGroup.txQueue then
      some { s with evBits := s.evGroup, evGroup := .none, point := .taking }
    else none
  | .taking =>
    if s.txq.length > 0 then some (s.goto .receiving)
    else some { s with txBuff := .zero, point := .asking }
  | .receiving =>
    match s.txq with
    | [] => some (s.goto .asking)
    | p :: txq => some { s with txBuff := p, txq := txq, point := .asking }
  | .asking =>
    if s.txBuff.len > 0 then
      some { s with gap8Rtt := true, point := if s.evBits.nina then .initiating else .secondWait }
    else some (s.goto .initiating)
  | .secondWait =>
    if s.evGroup.nina then
      some { s with evGroup := { s.evGroup with nina := false }, point := .initiating }
    else none
  | .initiating =>
    if s.evBits.nina || s.txBuff.len > 0 then
      some { s with started := s.started + 1, point := .transferring }
    else some (s.goto .checking)
  | .transferring => none
  | .queueing =>
    if s.rxBuff.len > 0 then
      if s.rxq.length < rxqSize then
        some { s with
          rxq := s.rxq ++ [s.rxBuff], put := s.put ++ [s.rxBuff], point := .checking }
      else none
    else some (s.goto .checking)
  | .outside => none

/-- Both transfers, with what the ESP32 clocks out. -/
def transfer (s : ComState) (esp : Nat → UInt8) : ComState :=
  match comTransfer s.txBuff s.rxBuff esp with
  | .error _ => s.goto .outside
  | .ok (left, rxBuff) =>
    { s with
      gap8Rtt := false
      rxBuff := rxBuff
      transfers := s.transfers ++ [⟨s.txBuff, esp, left, rxBuff⟩]
      point := .queueing }

/-- A rising edge, with `vDataReadyISR` once the interrupt is set up. -/
def riseNinaRtt (s : ComState) : ComState :=
  let s := { s with ninaRtt := true, edges := s.edges + 1 }
  if s.ninaRttNotif then s.setNinaBit else { s with missed := s.missed + 1 }

end ComState

/-- The two statements of `com_write`, `com_read`, the pin, the end of `com_init`, a statement of
`com_task`, and a transfer. -/
inductive ComEvent where
  | write (p : Packet)
  | wrote
  | read
  | rise
  | fall
  | setupNinaRttPin
  | task
  | transfer (esp : Nat → UInt8)

/-- The queues block when full or empty. Lengths are at most the MTU, and the NINA raises the pin
once for each transfer. The bit is set as the pin rises: the daemon task that sets it for the
interrupt goes before the other tasks. -/
def comStep (s : ComState) : ComEvent → Option ComState
  | .write p =>
    if s.txq.length < txqSize ∧ p.len.toNat ≤ mtu then
      some { s with
        txq := s.txq ++ [p], written := s.written ++ [p], writers := s.writers + 1 }
    else none
  | .wrote =>
    if 0 < s.writers then
      some { s with evGroup := { s.evGroup with txQueue := true }, writers := s.writers - 1 }
    else none
  | .read =>
    match s.rxq with
    | [] => none
    | p :: rxq => some { s with rxq := rxq, read := s.read ++ [p] }
  | .rise =>
    if s.ninaRtt = false ∧ s.edges ≤ s.transfers.length then some s.riseNinaRtt else none
  | .fall => some { s with ninaRtt := false }
  | .setupNinaRttPin => some { s with ninaRttNotif := true }
  | .task => s.taskStep
  | .transfer esp =>
    if s.point = .transferring ∧ (espLen esp).toNat ≤ mtu then some (s.transfer esp) else none

def comLink : Transition ComState where
  init s := s = .start
  step s t := ∃ e, comStep s e = some t

end AiDeck.Com
