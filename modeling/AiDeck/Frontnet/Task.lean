import AiDeck.Coroutine.Schedule
import AiDeck.Streamer.Send

/-! # PULP-Frontnet

nanocockpit/examples/pulp-frontnet/main.c on the coroutine runtime: each frame is given to
`camera_callback`, which starts an inference and a send and waits until the frame may be given
back. The cluster, the UART and CPX complete at any time. -/
namespace AiDeck.Frontnet
open AiDeck.Lib AiDeck.Coroutine

/-- The `consumer_ctx` of a frame, `inference_ctx`, and the `send_ctx` of a frame. -/
inductive Ctx (F : Type) where
  | consumer (f : F)
  | inference
  | send (f : F)
  deriving DecidableEq, Fintype

inductive Event where
  | frameDone
  | inferenceDone
  | streamerTxDone
  | networkDone
  | cpxDone
  deriving DecidableEq

/-- What happens: `camera_callback` is started and returns on a frame, the network finishes reading
it, and the tasks are started and return. -/
inductive Mark (F : Type) where
  | called (f : F)
  | inference
  | inferred
  | read (f : F)
  | send (f : F)
  | sent (f : F)
  | finished (f : F)
  deriving DecidableEq

/-- A run of the network in flight. -/
structure NetworkRun (F : Type) where
  frame : F
  inputRead : Bool
  deriving DecidableEq

abbrev FrontnetRt (F : Type) : Type := Runtime (Ctx F) Event Empty F

/-- The static variables of the tasks, what is in flight, and the history. The other task of a
context is the `done_event` of its frame. -/
structure FrontnetSystem (F : Type) where
  rt : FrontnetRt F
  cameraStarted : Bool
  inferenceFrame : F
  remainingLength : Int
  packetLength : UInt16
  network : Option (NetworkRun F)
  uart : Bool
  cpx : Bool
  log : List (Mark F)

variable {F : Type}

def cameraCallbackFn : CoFn := ⟨[99, 104, 127, 130]⟩
def inferenceTaskFn : CoFn := ⟨[147, 161]⟩
def streamerSendTaskFn : CoFn := ⟨[271]⟩

namespace FrontnetSystem

def withRt (s : FrontnetSystem F) (rt : FrontnetRt F) : FrontnetSystem F := { s with rt := rt }

def mark (s : FrontnetSystem F) (m : Mark F) : FrontnetSystem F := { s with log := s.log ++ [m] }

/-- `co_event_init` -/
def init (s : FrontnetSystem F) (e : Event) : FrontnetSystem F := s.withRt (coEventInit s.rt e)

/-- `pi_task_push` -/
def push (s : FrontnetSystem F) (e : Event) : FrontnetSystem F :=
  s.withRt (piTaskPush s.rt (.event e))

section
variable [DecidableEq F]

def pushStart (s : FrontnetSystem F) (c : Ctx F) (function : CoFn)
    (doneTask : PiTask Event F) : Except Stop (FrontnetSystem F) := do
  let rt ← coFnPushStart s.rt c function (some doneTask)
  return s.withRt rt

variable [Fintype F]

def wait (s : FrontnetSystem F) (c : Ctx F) (n : Nat) (e : Event) :
    Except Stop (FrontnetSystem F) := do
  let rt ← coWait s.rt c n e
  return s.withRt rt

end

def ret [DecidableEq F] (s : FrontnetSystem F) (c : Ctx F) : FrontnetSystem F :=
  s.withRt (coReturn s.rt c)

end FrontnetSystem

/-! ## inference_task -/

section
variable [DecidableEq F] [Fintype F]

/-- `network_run_async` -/
def networkRunAsync (s : FrontnetSystem F) (frame : F) : FrontnetSystem F :=
  { s with network := some ⟨frame, false⟩ }

/-- `uart_protocol_send_inference_async` -/
def uartProtocolSendInferenceAsync (s : FrontnetSystem F) : FrontnetSystem F :=
  { s with uart := true }

def inferenceTask (s : FrontnetSystem F) : Except Stop (FrontnetSystem F) := do
  let begun ← coFnBegin s.rt .inference
  let s := s.withRt begun.2
  if begun.1 = .line 147 then
    (uartProtocolSendInferenceAsync (s.init .networkDone)).wait .inference 161 .networkDone
  else if begun.1 = .line 161 then
    return (s.ret .inference).mark .inferred
  else (networkRunAsync (s.init .networkDone) s.inferenceFrame).wait .inference 147 .networkDone

/-! ## streamer_send_task -/

/-- `cpx_send_async` -/
def cpxSendAsync (s : FrontnetSystem F) : FrontnetSystem F := { s with cpx := true }

variable (frameSize : Nat) (maxTailLength : Int → Nat)

/-- The loop from its test to the next suspension. -/
def sendPacket (s : FrontnetSystem F) (f : F) : Except Stop (FrontnetSystem F) :=
  if s.remainingLength > 0 then
    let s := { s with
      packetLength := Streamer.packetLength s.remainingLength (maxTailLength s.remainingLength) }
    (cpxSendAsync (s.init .cpxDone)).wait (.send f) 271 .cpxDone
  else return (s.ret (.send f)).mark (.sent f)

def streamerSendTask (s : FrontnetSystem F) (f : F) : Except Stop (FrontnetSystem F) := do
  let begun ← coFnBegin s.rt (.send f)
  let s := s.withRt begun.2
  if begun.1 = .line 271 then
    sendPacket maxTailLength
      { s with remainingLength := s.remainingLength - s.packetLength.toNat } f
  else sendPacket maxTailLength { s with remainingLength := frameSize } f

/-- `streamer_send_frame_async` -/
def streamerSendFrameAsync (s : FrontnetSystem F) (f : F) (doneTask : PiTask Event F) :
    Except Stop (FrontnetSystem F) := do
  let s ← s.pushStart (.send f) streamerSendTaskFn doneTask
  return s.mark (.send f)

/-! ## camera_callback -/

/-- From the end of the first waits to the next wait. -/
def processFrame (s : FrontnetSystem F) (f : F) : Except Stop (FrontnetSystem F) := do
  let s := { s with cameraStarted := true, inferenceFrame := f }.init .frameDone
  let s := s.init .inferenceDone
  let s ← s.pushStart .inference inferenceTaskFn (.event .inferenceDone)
  let s := (s.mark .inference).init .streamerTxDone
  let s ← streamerSendFrameAsync s f (.event .streamerTxDone)
  s.wait (.consumer f) 127 .streamerTxDone

/-- The wait for the previous send. -/
def waitStreamer (s : FrontnetSystem F) (f : F) : Except Stop (FrontnetSystem F) :=
  if coEventIsDone s.rt .streamerTxDone then processFrame s f
  else s.wait (.consumer f) 104 .streamerTxDone

/-- The wait for the previous inference. -/
def waitInference (s : FrontnetSystem F) (f : F) : Except Stop (FrontnetSystem F) :=
  if coEventIsDone s.rt .inferenceDone then waitStreamer s f
  else s.wait (.consumer f) 99 .inferenceDone

def cameraCallback (s : FrontnetSystem F) (f : F) : Except Stop (FrontnetSystem F) := do
  let begun ← coFnBegin s.rt (.consumer f)
  let s := s.withRt begun.2
  if begun.1 = .line 99 then waitInference s f
  else if begun.1 = .line 104 then waitStreamer s f
  else if begun.1 = .line 127 then s.wait (.consumer f) 130 .frameDone
  else if begun.1 = .line 130 then return (s.ret (.consumer f)).mark (.finished f)
  else if s.cameraStarted then waitInference s f
  else processFrame s f

/-! ## Runs -/

/-- The camera starts the consumer of a frame, the network has read its input or completes, a
transfer completes, or the scheduler takes its next task. -/
inductive FrontnetAction (F : Type) where
  | consume (f : F)
  | inputRead
  | networkDone
  | uartDone
  | cpxDone
  | schedule

/-- At most two frames are with the consumer at once; the network pushes its input task once,
before it completes. -/
def FrontnetAction.Enabled (s : FrontnetSystem F) : FrontnetAction F → Prop
  | consume f => ¬ Live s.rt (.consumer f) ∧
      ∀ g h, Live s.rt (.consumer g) → Live s.rt (.consumer h) → g = h
  | inputRead => ∃ f, s.network = some ⟨f, false⟩
  | networkDone => ∃ f, s.network = some ⟨f, true⟩
  | uartDone => s.uart = true
  | cpxDone => s.cpx = true
  | schedule => True

def readInput (s : FrontnetSystem F) : FrontnetSystem F :=
  match s.network with
  | some run => ({ s with network := some ⟨run.frame, true⟩ }.push .frameDone).mark (.read run.frame)
  | none => s

/-- The scheduler takes the head of its queue. -/
def schedule (s : FrontnetSystem F) : Except Stop (FrontnetSystem F) :=
  match s.rt.queue with
  | [] => .ok s
  | .resume (.consumer f) :: rest => cameraCallback (s.withRt (s.rt.dequeue rest)) f
  | .resume .inference :: rest => inferenceTask (s.withRt (s.rt.dequeue rest))
  | .resume (.send f) :: rest =>
    streamerSendTask frameSize maxTailLength (s.withRt (s.rt.dequeue rest)) f
  | .task (.event e) :: rest => do
    let rt ← coEventCallback (s.rt.dequeueEvent e rest) e
    return s.withRt rt
  | .task (.other _) :: rest => .ok (s.withRt (s.rt.dequeue rest))

def FrontnetAction.run (s : FrontnetSystem F) : FrontnetAction F → Except Stop (FrontnetSystem F)
  | consume f => do
    let s ← s.pushStart (.consumer f) cameraCallbackFn (.other f)
    return s.mark (.called f)
  | inputRead => .ok (readInput s)
  | networkDone => .ok ({ s with network := none }.push .networkDone)
  | uartDone => .ok ({ s with uart := false }.push .networkDone)
  | cpxDone => .ok ({ s with cpx := false }.push .cpxDone)
  | schedule => AiDeck.Frontnet.schedule frameSize maxTailLength s

end

/-- Nothing has been started. -/
structure FrontnetSystem.Initial (s : FrontnetSystem F) : Prop where
  rt : s.rt.Initial
  cameraStarted : s.cameraStarted = false
  network : s.network = none
  uart : s.uart = false
  cpx : s.cpx = false
  log : s.log = []

/-- The application, for frames of any size. -/
def frontnet [DecidableEq F] [Fintype F] (frameSize : Nat) (maxTailLength : Int → Nat) :
    Transition (FrontnetSystem F) where
  init := FrontnetSystem.Initial
  step s t := ∃ a : FrontnetAction F, a.Enabled s ∧ a.run frameSize maxTailLength s = .ok t

end AiDeck.Frontnet
