import AiDeck.Coroutine.Schedule

/-! # The camera pipeline

nanocockpit/lib/camera.c on the coroutine runtime: `camera_task` sends each frame through capture,
crop and consumer, with one event and one context for a frame. The sensor completes a capture at
any time, and the consumer callback is any coroutine that waits on events of its own. -/
namespace AiDeck.Camera
open AiDeck.Lib AiDeck.Coroutine

inductive Stage where
  | capture
  | crop
  | consume
  deriving DecidableEq, Repr

/-- What happens to a frame: its `done_event` is initialised, a stage is started or completed. -/
inductive Mark (N : Nat) where
  | init (i : Fin N)
  | started (stage : Stage) (i : Fin N)
  | completed (stage : Stage) (i : Fin N)
  deriving DecidableEq

/-- Why the tasks do not go on: the runtime stops, or an `int` overflows. -/
inductive CameraStop where
  | runtime (stop : Stop)
  | overflow
  deriving DecidableEq

/-- `camera_ctx`, or the `consumer_ctx` of a frame. -/
abbrev Ctx (N : Nat) : Type := Option (Fin N)
/-- The `done_event` of a frame, or an event of the consumer. -/
abbrev Event (N : Nat) (E : Type) : Type := Fin N ⊕ E
abbrev CameraRt (N : Nat) (E : Type) : Type := Runtime (Ctx N) (Event N E) Empty Empty

/-- The static variables of both tasks, which function each `consumer_ctx` has, the captures in
progress, and the history. -/
structure CameraSystem (N : Nat) (E : Type) where
  rt : CameraRt N E
  captureIdx : Nat
  cropIdx : Nat
  consumeIdx : Nat
  frame : Fin N
  row : Nat
  function : Fin N → Stage
  capturing : List (Fin N)
  log : List (Mark N)

variable {N : Nat} {E : Type}

def cameraTaskFn : CoFn := ⟨[142, 155, 177]⟩
def cameraCropTaskFn : CoFn := ⟨[216]⟩

namespace CameraSystem

def withRt (s : CameraSystem N E) (rt : CameraRt N E) : CameraSystem N E := { s with rt := rt }

def mark (s : CameraSystem N E) (m : Mark N) : CameraSystem N E := { s with log := s.log ++ [m] }

end CameraSystem

/-- A call of the runtime. -/
def call {α : Type} (x : Except Stop α) : Except CameraStop α := x.mapError .runtime

/-- `idx += 1` -/
def increment (idx : Nat) : Except CameraStop Nat :=
  if idx < 2 ^ 31 - 1 then .ok (idx + 1) else .error .overflow

section
variable [DecidableEq E]

/-- `co_event_init(&frame->done_event)` -/
def initFrame (s : CameraSystem N E) : CameraSystem N E :=
  (s.withRt (coEventInit s.rt (.inl s.frame))).mark (.init s.frame)

/-- `CO_WAIT(&frame->done_event)` at line `n`. -/
def waitFrame (s : CameraSystem N E) (n : Nat) : Except CameraStop (CameraSystem N E) := do
  let rt ← call (coWait s.rt none n (.inl s.frame))
  return s.withRt rt

/-- `himax_capture_async` -/
def himaxCaptureAsync (s : CameraSystem N E) : CameraSystem N E :=
  { s with capturing := s.capturing ++ [s.frame] }.mark (.started .capture s.frame)

/-- `camera_crop_frame_async` and `camera_consume_frame_async`. -/
def startStage (s : CameraSystem N E) (stage : Stage) (function : CoFn) :
    Except CameraStop (CameraSystem N E) := do
  let rt ← call (coFnPushStart s.rt (some s.frame) function (some (.event (.inl s.frame))))
  return ({ s with function := Function.update s.function s.frame stage }.withRt rt).mark
    (.started stage s.frame)

variable [NeZero N]

/-- `&camera->frames[idx % CAMERA_BUFFERS]` -/
def CameraSystem.select (s : CameraSystem N E) (idx : Nat) : CameraSystem N E :=
  { s with frame := .ofNat N idx }

/-- `camera_task` from the call of `himax_capture_async` to the next wait. -/
def captureFrame (s : CameraSystem N E) : Except CameraStop (CameraSystem N E) := do
  let s := himaxCaptureAsync (initFrame s)
  let idx ← increment s.captureIdx
  let s := { s with captureIdx := idx }
  waitFrame (s.select s.cropIdx) 155

/-- From the head of the loop to the next wait. -/
def nextFrame (s : CameraSystem N E) : Except CameraStop (CameraSystem N E) :=
  let s := s.select s.captureIdx
  if s.captureIdx ≥ N then waitFrame s 142 else captureFrame s

/-- From the end of the second wait to the next wait. -/
def cropFrame (s : CameraSystem N E) : Except CameraStop (CameraSystem N E) := do
  let s ← startStage (initFrame s) .crop cameraCropTaskFn
  let idx ← increment s.cropIdx
  let s := { s with cropIdx := idx }
  waitFrame (s.select s.consumeIdx) 177

/-- From the end of the third wait to the next wait. -/
def consumeFrame (consumerCallback : CoFn) (s : CameraSystem N E) :
    Except CameraStop (CameraSystem N E) := do
  let s ← startStage (initFrame s) .consume consumerCallback
  let idx ← increment s.consumeIdx
  nextFrame { s with consumeIdx := idx }

def cameraTask (consumerCallback : CoFn) (s : CameraSystem N E) :
    Except CameraStop (CameraSystem N E) := do
  let begun ← call (coFnBegin s.rt none)
  let s := s.withRt begun.2
  if begun.1 = .line 142 then captureFrame s
  else if begun.1 = .line 155 then cropFrame s
  else if begun.1 = .line 177 then consumeFrame consumerCallback s
  else nextFrame { s with captureIdx := 0, cropIdx := 0, consumeIdx := 0 }

/-- The end of a stage that is a coroutine. -/
def endStage (s : CameraSystem N E) (stage : Stage) (i : Fin N) : CameraSystem N E :=
  (s.withRt (coReturn s.rt (some i))).mark (.completed stage i)

/-- `camera_crop_task`: it yields after each of the `cropHeight` rows. -/
def cameraCropTask (cropHeight : Nat) (s : CameraSystem N E) (i : Fin N) :
    Except CameraStop (CameraSystem N E) := do
  let begun ← call (coFnBegin s.rt (some i))
  let s := { s.withRt begun.2 with row := if begun.1 = .line 216 then s.row + 1 else 0 }
  if s.row < cropHeight then return s.withRt (coYield s.rt (some i) 216)
  else return endStage s .crop i

/-- How the consumer callback gives up control. -/
inductive ConsumerExit (E : Type) where
  | yield (n : Nat)
  | wait (n : Nat) (e : E)
  | ret

def consumerCallback (exit : ConsumerExit E) (s : CameraSystem N E) (i : Fin N) :
    Except CameraStop (CameraSystem N E) := do
  let begun ← call (coFnBegin s.rt (some i))
  let s := s.withRt begun.2
  match exit with
  | .yield n => return s.withRt (coYield s.rt (some i) n)
  | .wait n e =>
    let rt ← call (coWait s.rt (some i) n (.inr e))
    return s.withRt rt
  | .ret => return endStage s .consume i

/-! ## Runs -/

/-- A capture completes, the consumer initialises or pushes an event of its own, or the scheduler
takes its next task, with what the consumer does if it is resumed. -/
inductive CameraAction (N : Nat) (E : Type) where
  | captured (i : Fin N)
  | eventInit (e : E)
  | eventPush (e : E)
  | schedule (exit : ConsumerExit E)

def ConsumerExit.Valid (consumer : CoFn) : ConsumerExit E → Prop
  | yield n => n ∈ consumer.lines
  | wait n _ => n ∈ consumer.lines
  | ret => True

/-- Only captures in progress complete, only events nobody waits on are initialised, and the
consumer suspends at lines of its function. -/
def CameraAction.Enabled (consumer : CoFn) (s : CameraSystem N E) : CameraAction N E → Prop
  | captured i => i ∈ s.capturing
  | eventInit e => s.rt.lists.first (.inr e) = none
  | eventPush _ => True
  | schedule exit => exit.Valid consumer

/-- The scheduler takes the head of its queue. -/
def schedule (consumer : CoFn) (cropHeight : Nat) (exit : ConsumerExit E) (s : CameraSystem N E) :
    Except CameraStop (CameraSystem N E) :=
  match s.rt.queue with
  | [] => .ok s
  | .resume none :: rest => cameraTask consumer (s.withRt (s.rt.dequeue rest))
  | .resume (some i) :: rest =>
    if s.function i = .crop then cameraCropTask cropHeight (s.withRt (s.rt.dequeue rest)) i
    else consumerCallback exit (s.withRt (s.rt.dequeue rest)) i
  | .task (.event e) :: rest => do
    let rt ← call (coEventCallback (s.rt.dequeueEvent e rest) e)
    return s.withRt rt
  | .task (.other _) :: rest => .ok (s.withRt (s.rt.dequeue rest))

def CameraAction.run (consumer : CoFn) (cropHeight : Nat) (s : CameraSystem N E) :
    CameraAction N E → Except CameraStop (CameraSystem N E)
  | captured i =>
    .ok (({ s with capturing := s.capturing.erase i }.withRt
      (piTaskPush s.rt (.event (.inl i)))).mark (.completed .capture i))
  | eventInit e => .ok (s.withRt (coEventInit s.rt (.inr e)))
  | eventPush e => .ok (s.withRt (coEventPush s.rt (.inr e)))
  | schedule exit => AiDeck.Camera.schedule consumer cropHeight exit s

/-- After `camera_start`: nothing was started before, and no capture is in progress. -/
def CameraSystem.Started (s : CameraSystem N E) : Prop :=
  ∃ rt : CameraRt N E, rt.Initial ∧
    coFnPushStart rt none cameraTaskFn none = .ok s.rt ∧ s.capturing = [] ∧ s.log = []

/-- The camera with a consumer callback, for frames of `cropHeight` rows. -/
def camera (consumer : CoFn) (cropHeight : Nat) : Transition (CameraSystem N E) where
  init := CameraSystem.Started
  step s t := ∃ a : CameraAction N E, a.Enabled consumer s ∧ a.run consumer cropHeight s = .ok t

end

end AiDeck.Camera
