import AiDeck.Lib.Captures
import AiDeck.Lib.Transition

/-! # The capture pipeline

examples/other/wifi-img-streamer/camera_pipeline.c with `CAPTURE_MODE_PIPELINED`, and the loop of
`camera_task` that calls it. The task goes from statement to statement; a capture may complete and
a client may come or go before each. -/
namespace AiDeck.Wifi
open AiDeck.Lib

abbrev captureBufferCount : Nat := 3
abbrev Buffer : Type := Fin captureBufferCount

instance captureBufferCount_neZero : NeZero captureBufferCount := ⟨by decide⟩

/-- The calls of `schedule_capture`: three in `camera_pipeline_begin_frame` and one in
`camera_pipeline_end_frame`. -/
inductive Site where
  | first
  | second
  | third
  | refill
  deriving DecidableEq, Repr

/-- The statement `camera_task` executes next. -/
inductive Point where
  /-- `if (!wifi_client_connected)` -/
  | connected
  /-- `camera_pipeline_disconnect`: `if (camera_streaming)` and the statements in order -/
  | disconnecting
  | clearing
  | discarding
  | draining
  | clearingAgain
  | stopping
  | notWaiting
  | notDiscarding
  /-- `vTaskDelay(10)` -/
  | delaying
  /-- `camera_pipeline_begin_frame`: `if (!camera_streaming)` and the statements in order -/
  | beginning
  | beginWaiting
  | beginWait
  | beginProcessing
  | beginStreaming
  | returning
  /-- The frame is encoded and sent. -/
  | processing
  /-- `camera_pipeline_end_frame` -/
  | endWaiting
  | endWait
  | endProcessing
  /-- `schedule_capture`: `captures_queued++` and the call of `queue_capture` -/
  | counting (site : Site)
  | queueing (site : Site)
  deriving DecidableEq, Repr

/-- What follows a call of `schedule_capture`; the sensor is started before the first wait. -/
def Site.next : Site → Point
  | .first => .counting .second
  | .second => .beginWait
  | .third => .beginStreaming
  | .refill => .endProcessing

/-- The variables of camera_pipeline.c, `wifi_client_connected`, the event bit, the buffers queued
in the DMA, and what became of the captures. -/
structure State where
  point : Point
  wifiClientConnected : Bool
  captureQueuedAt : Buffer → UInt32
  queueLatency : UInt32
  droppedFrames : UInt32
  readyBuffer : Buffer
  processingBuffer : Buffer
  consumerWaiting : Bool
  cameraStreaming : Bool
  capturesQueued : UInt32
  capturesCompleted : UInt32
  discardingCaptures : Bool
  captureDoneBit : Bool
  dma : List Buffer
  captures : Captures Buffer

/-- After `camera_pipeline_init`. -/
def State.start : State where
  point := .connected
  wifiClientConnected := false
  captureQueuedAt := fun _ => 0
  queueLatency := 0
  droppedFrames := 0
  readyBuffer := 0
  processingBuffer := 0
  consumerWaiting := false
  cameraStreaming := false
  capturesQueued := 0
  capturesCompleted := 0
  discardingCaptures := false
  captureDoneBit := false
  dma := []
  captures := .empty

namespace State

def outstandingCaptures (s : State) : UInt32 := s.capturesQueued - s.capturesCompleted

/-- `queue_capture` at the tick `now`. -/
def queueCapture (s : State) (bufferIndex : Buffer) (now : UInt32) : State :=
  { s with
    captureQueuedAt := Function.update s.captureQueuedAt bufferIndex now
    dma := s.dma ++ [bufferIndex] }

/-- The branch of `capture_done` while captures are discarded. -/
def discardCapture (s : State) (bufferIndex : Buffer) : State :=
  let s := { s with
    capturesCompleted := s.capturesCompleted + 1
    captures := s.captures.complete bufferIndex .discarded }
  if s.outstandingCaptures = 0 then { s with captureDoneBit := true } else s

/-- The branch for a waiting consumer. -/
def selectCapture (s : State) (bufferIndex : Buffer) (now : UInt32) : State :=
  { s with
    capturesCompleted := s.capturesCompleted + 1
    queueLatency := now - s.captureQueuedAt bufferIndex
    readyBuffer := bufferIndex
    consumerWaiting := false
    captureDoneBit := true
    captures := s.captures.makeReady bufferIndex }

/-- The branch that replaces the capture. -/
def dropCapture (s : State) (bufferIndex : Buffer) (now : UInt32) : State :=
  queueCapture { s with
    droppedFrames := s.droppedFrames + 1
    captures := s.captures.complete bufferIndex .dropped } bufferIndex now

/-- `capture_done` for a buffer that the DMA has filled. -/
def captureDone (s : State) (bufferIndex : Buffer) (now : UInt32) : State :=
  let s := { s with dma := s.dma.erase bufferIndex }
  if s.discardingCaptures then s.discardCapture bufferIndex
  else if s.consumerWaiting then s.selectCapture bufferIndex now
  else s.dropCapture bufferIndex now

/-! ## The task -/

def goto (s : State) (point : Point) : State := { s with point := point }

/-- The argument of `schedule_capture`. -/
def scheduled (s : State) : Site → Buffer
  | .first => 1
  | .second => 2
  | .third => 0
  | .refill => s.processingBuffer

/-- `wait_for_ready_frame` clears the bit as it returns. -/
def waitForReadyFrame (s : State) (next : Point) : Option State :=
  if s.captureDoneBit then some { s with captureDoneBit := false, point := next } else none

/-- The next statement of the task, if it does not wait. -/
def taskStep (s : State) (now : UInt32) : Option State :=
  match s.point with
  | .connected => some (s.goto (if s.wifiClientConnected then .beginning else .disconnecting))
  | .disconnecting => some (s.goto (if s.cameraStreaming then .clearing else .delaying))
  | .clearing => some { s with captureDoneBit := false, point := .discarding }
  | .discarding => some { s with discardingCaptures := true, point := .draining }
  | .draining => s.waitForReadyFrame .clearingAgain
  | .clearingAgain => some { s with captureDoneBit := false, point := .stopping }
  | .stopping =>
    some { s with
      cameraStreaming := false
      captures := s.captures.discard
      point := .notWaiting }
  | .notWaiting => some { s with consumerWaiting := false, point := .notDiscarding }
  | .notDiscarding => some { s with discardingCaptures := false, point := .delaying }
  | .delaying => some (s.goto .connected)
  | .beginning => some (s.goto (if s.cameraStreaming then .returning else .beginWaiting))
  | .beginWaiting =>
    some { s with
      consumerWaiting := true, captures := s.captures.wait, point := .counting .first }
  | .beginWait => s.waitForReadyFrame .beginProcessing
  | .beginProcessing =>
    some { s with processingBuffer := s.readyBuffer, point := .counting .third }
  | .beginStreaming => some { s with cameraStreaming := true, point := .returning }
  | .returning =>
    some { s with captures := s.captures.deliver s.processingBuffer, point := .processing }
  | .processing => some (s.goto .endWaiting)
  | .endWaiting =>
    some { s with consumerWaiting := true, captures := s.captures.wait, point := .endWait }
  | .endWait => s.waitForReadyFrame (.counting .refill)
  | .endProcessing => some { s with processingBuffer := s.readyBuffer, point := .connected }
  | .counting site => some { s with capturesQueued := s.capturesQueued + 1, point := .queueing site }
  | .queueing site => some ((s.queueCapture (s.scheduled site) now).goto site.next)

end State

inductive Event where
  | client (isConnected : Bool)
  | captureDone (bufferIndex : Buffer) (now : UInt32)
  | task (now : UInt32)

/-- A capture completes if it is queued. -/
def step (s : State) : Event → Option State
  | .client isConnected => some { s with wifiClientConnected := isConnected }
  | .captureDone bufferIndex now =>
    if bufferIndex ∈ s.dma then some (s.captureDone bufferIndex now) else none
  | .task now => s.taskStep now

/-- The pipeline with its consumer. -/
def pipeline : Transition State where
  init s := s = .start
  step s t := ∃ e, step s e = some t

end AiDeck.Wifi
