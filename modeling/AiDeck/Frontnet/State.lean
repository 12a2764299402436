import AiDeck.Frontnet.Task

/-! # The states of the tasks

Where each coroutine is, what is in flight, which callbacks are pending and which events are done
follow from the state of the inference, of the send and of the consumer of each frame. -/
namespace AiDeck.Frontnet
open AiDeck.Lib AiDeck.Coroutine

variable {F : Type}

/-- The inference: `pending` says that the callback of `frame_done` has not run. -/
inductive InferenceState where
  | none
  | starting
  | reading
  | running (pending : Bool)
  | networkDone (pending : Bool)
  | dequantizing
  | sending
  | sent
  | finishing
  | returned
  | done
  deriving DecidableEq

inductive SendState (F : Type) where
  | none
  | starting (f : F)
  | sending (f : F)
  | signalled (f : F)
  | continuing (f : F)
  | returned (f : F)
  | done
  deriving DecidableEq

/-- The consumer of a frame, by the wait it is in. -/
inductive ConsumerState where
  | idle
  | starting
  | inference
  | streamer
  | sending
  | reading
  deriving DecidableEq

/-- Where a context is: waiting contexts may have been woken at `either`. -/
inductive Position where
  | idle
  | running
  | queued (p : ResumePoint)
  | waiting (p : ResumePoint) (e : Event)
  | either (p : ResumePoint) (e : Event)

namespace Position

def Home : Position → Coroutine.Home Event Empty → Prop
  | idle, home => home = .idle
  | running, home => home = .running
  | queued _, home => home = .queued
  | waiting _ e, home => home = .event e
  | either _ e, home => home = .queued ∨ home = .event e

def point? : Position → Option ResumePoint
  | queued p => some p
  | waiting p _ => some p
  | either p _ => some p
  | _ => none

/-- The event a context may wait on. -/
def event? : Position → Option Event
  | waiting _ e => some e
  | either _ e => some e
  | _ => none

end Position

namespace InferenceState

def position : InferenceState → Position
  | none => .idle
  | starting => .queued .start
  | reading => .waiting (.line 147) .networkDone
  | running _ => .waiting (.line 147) .networkDone
  | networkDone _ => .waiting (.line 147) .networkDone
  | dequantizing => .queued (.line 147)
  | sending => .waiting (.line 161) .networkDone
  | sent => .waiting (.line 161) .networkDone
  | finishing => .queued (.line 161)
  | returned => .idle
  | done => .idle

/-- The run of the network that is in flight. -/
def network (frame : F) : InferenceState → Option (NetworkRun F)
  | reading => some ⟨frame, false⟩
  | running _ => some ⟨frame, true⟩
  | _ => Option.none

def uart : InferenceState → Bool
  | sending => true
  | _ => false

/-- The network has not read the input. -/
def unread : InferenceState → Bool
  | starting => true
  | reading => true
  | _ => false

def frameCallbacks : InferenceState → Nat
  | running true => 1
  | networkDone true => 1
  | _ => 0

def networkCallbacks : InferenceState → Nat
  | networkDone _ => 1
  | sent => 1
  | _ => 0

def inferenceCallbacks : InferenceState → Nat
  | returned => 1
  | _ => 0

/-- Whether `frame_done` is done, once it is initialised. -/
def frameDone? : InferenceState → Option Bool
  | none => Option.none
  | starting => some false
  | reading => some false
  | running pending => some !pending
  | networkDone pending => some !pending
  | _ => some true

def inferenceDone? : InferenceState → Option Bool
  | none => Option.none
  | done => some true
  | _ => some false

/-- The task was started and has not returned. -/
def live : InferenceState → Nat
  | none => 0
  | returned => 0
  | done => 0
  | _ => 1

end InferenceState

namespace SendState

/-- The frame that is sent. -/
def frame? : SendState F → Option F
  | starting f => some f
  | sending f => some f
  | signalled f => some f
  | continuing f => some f
  | _ => Option.none

/-- The frame whose send is not known to be done. -/
def busy? : SendState F → Option F
  | returned f => some f
  | w => w.frame?

/-- Where `streamer_send_task` is with the frame it sends. -/
def place : SendState F → Position
  | starting _ => .queued .start
  | sending _ => .waiting (.line 271) .cpxDone
  | signalled _ => .waiting (.line 271) .cpxDone
  | continuing _ => .queued (.line 271)
  | _ => .idle

def position [DecidableEq F] (w : SendState F) (f : F) : Position :=
  if w.frame? = some f then w.place else .idle

def cpx : SendState F → Bool
  | sending _ => true
  | _ => false

def cpxCallbacks : SendState F → Nat
  | signalled _ => 1
  | _ => 0

def txCallbacks : SendState F → Nat
  | returned _ => 1
  | _ => 0

def txDone? : SendState F → Option Bool
  | none => Option.none
  | done => some true
  | _ => some false

end SendState

namespace ConsumerState

def position : ConsumerState → Position
  | idle => .idle
  | starting => .queued .start
  | inference => .either (.line 99) .inferenceDone
  | streamer => .either (.line 104) .streamerTxDone
  | sending => .either (.line 127) .streamerTxDone
  | reading => .either (.line 130) .frameDone

/-- It has not started its tasks. -/
def early : ConsumerState → Bool
  | starting => true
  | inference => true
  | streamer => true
  | _ => false

end ConsumerState

/-- Where the contexts are. -/
def position [DecidableEq F] (r : InferenceState) (w : SendState F) (c : F → ConsumerState) :
    Ctx F → Position
  | .consumer f => (c f).position
  | .inference => r.position
  | .send f => w.position f

/-- The callbacks that are pending. -/
def pending (r : InferenceState) (w : SendState F) : Event → Nat
  | .frameDone => r.frameCallbacks
  | .inferenceDone => r.inferenceCallbacks
  | .streamerTxDone => w.txCallbacks
  | .networkDone => r.networkCallbacks
  | .cpxDone => w.cpxCallbacks

/-- The events whose `done` matters. -/
def done? (r : InferenceState) (w : SendState F) : Event → Option Bool
  | .frameDone => r.frameDone?
  | .inferenceDone => r.inferenceDone?
  | .streamerTxDone => w.txDone?
  | _ => none

def coFn : Ctx F → CoFn
  | .consumer _ => cameraCallbackFn
  | .inference => inferenceTaskFn
  | .send _ => streamerSendTaskFn

def doneTask : Ctx F → PiTask Event F
  | .consumer f => .other f
  | .inference => .event .inferenceDone
  | .send _ => .event .streamerTxDone

abbrev FrontnetSchedule (F : Type) : Type := Schedule (Ctx F) Event Empty F

/-- A context is at its position. -/
structure ContextOk (v : FrontnetSchedule F) (d : Ctx F) (p : Position) : Prop where
  home : p.Home (v.home d)
  point : ∀ x, p.point? = some x → v.resumePoint d = x
  fn : p ≠ .idle → v.fn d = coFn d
  doneTask : p ≠ .idle → v.doneTask d = some (doneTask d)

end AiDeck.Frontnet
