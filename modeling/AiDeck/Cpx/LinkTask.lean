import AiDeck.Coroutine.Machine
import AiDeck.Cpx.Link
import AiDeck.Cpx.SpiRequests

/-! # The task of the SPI link

`cpx_spi_task` (nanocockpit/lib/cpx/cpx_spi.c), one transition for each of its twelve
numbered steps, over the coroutine runtime. Between any two of them NINA may raise its
line and an SPI transfer may end; while the task is suspended the scheduler runs what is
pending and other tasks make requests. -/
namespace AiDeck.Cpx
open AiDeck.Coroutine AiDeck.Lib

/-- The numbers of the comments in `cpx_spi_task`. -/
inductive LinkStep where
  | step1
  | step2
  | step3
  | step4
  | step5
  | step6
  | step7
  | step8
  | step9
  | step10
  | step11
  | step12
  deriving DecidableEq, Repr

/-- The line of the `CO_WAIT` behind each phase. -/
def Phase.line : Phase → Nat
  | header => 302
  | head => 323
  | tail => 329

/-- The `CO_WAIT_GROUP` of the steps 1, 2 and 4. -/
inductive GroupWait where
  | anyone
  | receiver
  | nina
  deriving DecidableEq, Repr

abbrev eventsAll : BitVec 32 := eventNinaRtt ||| eventSend ||| eventReceive

namespace GroupWait

def line : GroupWait → Nat
  | anyone => 269
  | receiver => 274
  | nina => 285

/-- The value of `events` before the wait. -/
def mask : GroupWait → BitVec 32
  | anyone => eventNinaRtt ||| eventSend
  | receiver => eventReceive
  | nina => eventNinaRtt

def mode : GroupWait → WaitMode
  | anyone => .any
  | receiver => .all
  | nina => .all

end GroupWait

def cpxSpiTaskFn : CoFn := ⟨[269, 274, 285, 302, 323, 329]⟩

/-- What the build and the placement of `cpx_spi_t` fix: `CPX_SPI_BIDIRECTIONAL` and the
empty header. -/
structure LinkConfig where
  bidirectional : Bool
  emptyHeader : EmptyHeader

/-- The other tasks: `nina_rtt_task`, and those of the users of the link. -/
inductive LinkPiTask (Task : Type) where
  | ninaRtt
  | user (t : Task)
  deriving DecidableEq

/-- One context, the event `spi_done` and the group `events`; requests are pointers `S`
and `R` to the objects in `sendReqs` and `receiveReqs`, and their `done_task`s are tasks of
the users. `step` is the step the task is
about to take when it has control, `inFlight` the transfer at the driver; `events`,
`sendReq` and `receiveReq` are the `static` variables of the task. -/
structure LinkSystem (S R Task : Type) where
  rt : Runtime Unit Unit Unit (LinkPiTask Task)
  step : Option LinkStep
  cpxSpi : CpxSpi S R Task
  sendReqs : S → CpxSpiSendReq
  receiveReqs : R → CpxSpiReceiveReq
  gap8Rtt : Bool
  inFlight : Option (Phase × SpiTransfer)
  events : BitVec 32
  sendReq : Option S
  receiveReq : Option R
  log : List (LinkEvent S R Task)

abbrev spiDone : Unit := ()
abbrev cpxSpiCtx : Unit := ()
abbrev spiEvents : Unit := ()

section
variable {S R Task : Type}

namespace LinkSystem

def withRt (s : LinkSystem S R Task) (rt : Runtime Unit Unit Unit (LinkPiTask Task)) :
    LinkSystem S R Task :=
  { s with rt := rt }

def goTo (s : LinkSystem S R Task) (step : Option LinkStep) : LinkSystem S R Task :=
  { s with step := step }

def withCpxSpi (s : LinkSystem S R Task) (cpxSpi : CpxSpi S R Task) :
    LinkSystem S R Task :=
  { s with cpxSpi := cpxSpi }

def withEvents (s : LinkSystem S R Task) (events : BitVec 32) : LinkSystem S R Task :=
  { s with events := events }

def gap8RttSet (s : LinkSystem S R Task) (value : Bool) : LinkSystem S R Task :=
  { s with gap8Rtt := value }

def fly (s : LinkSystem S R Task) (inFlight : Option (Phase × SpiTransfer)) :
    LinkSystem S R Task :=
  { s with inFlight := inFlight }

def record (s : LinkSystem S R Task) (e : LinkEvent S R Task) : LinkSystem S R Task :=
  { s with log := s.log ++ [e] }

def withReceiveReqs (s : LinkSystem S R Task) (receiveReqs : R → CpxSpiReceiveReq) :
    LinkSystem S R Task :=
  { s with receiveReqs := receiveReqs }

/-- The header of a receive request is overwritten. -/
def storeHeader [DecidableEq R] (s : LinkSystem S R Task) (r : R) (header : CpxSpiHeader) :
    LinkSystem S R Task :=
  s.withReceiveReqs (Function.update s.receiveReqs r { s.receiveReqs r with header := header })

end LinkSystem

/-! ## The steps of the task -/

/-- `events = ...; CO_WAIT_GROUP(...)`. -/
def waitEvents (s : LinkSystem S R Task) (w : GroupWait) : Except Stop (LinkSystem S R Task) := do
  let rt ← coWaitGroup s.rt cpxSpiCtx w.line spiEvents w.mask w.mode
  return ((s.withEvents w.mask).withRt rt).goTo none

/-- The calls of the functions of the three phases. -/
def phaseCalls (config : LinkConfig) (s : LinkSystem S R Task) :
    Phase → Except SpiAssertion PhaseCalls
  | .header => cpxSpiTransferHeaderAsync config.emptyHeader (s.sendReq.map s.sendReqs)
      (s.receiveReq.map s.receiveReqs)
  | .head => cpxSpiTransferPayloadHeadAsync config.emptyHeader (s.sendReq.map s.sendReqs)
      (s.receiveReq.map s.receiveReqs)
  | .tail => cpxSpiTransferPayloadTailAsync (s.sendReq.map s.sendReqs)
      (s.receiveReq.map s.receiveReqs)

/-- A transfer is given to the driver; a push ends the phase. -/
def phaseCall (p : Phase) (s : LinkSystem S R Task) : PhaseOp → LinkSystem S R Task
  | .spi transfer => s.fly (some (p, transfer))
  | .push => (s.withRt (piTaskPush s.rt (.event spiDone))).record (.ended p)

/-- `cpx_spi_transfer_..._async(..., co_event_init(&cpx_spi->spi_done))` and the
`CO_WAIT` behind it. -/
def transferPhase (config : LinkConfig) (s : LinkSystem S R Task) (p : Phase) :
    Except Stop (LinkSystem S R Task) :=
  match phaseCalls config s p with
  | .error a => .error (.assertion a.message)
  | .ok calls => do
    let s := calls.foldl (phaseCall p) (s.withRt (coEventInit s.rt spiDone))
    let rt ← coWait s.rt cpxSpiCtx p.line spiDone
    return (s.withRt rt).goTo none

/-- Step 5: the requests of the bits that are set. -/
def fetchRequests (s : LinkSystem S R Task) : LinkSystem S R Task :=
  let events := coEventGroupGet s.rt spiEvents eventsAll
  { s with
    events := events
    sendReq := if events &&& eventSend ≠ 0 then s.cpxSpi.sendReq else none
    receiveReq := if events &&& eventReceive ≠ 0 then s.cpxSpi.receiveReq else none }

/-- Without `CPX_SPI_BIDIRECTIONAL` whatever was received is ignored. -/
def dropReceived [DecidableEq R] (config : LinkConfig) (s : LinkSystem S R Task) :
    LinkSystem S R Task :=
  match config.bidirectional, s.receiveReq with
  | false, some r => s.storeHeader r ⟨0, (s.receiveReqs r).header.cpx⟩
  | _, _ => s

/-- `pi_task_push` of a `done_task`, which is what the history records. -/
def LinkSystem.pushDone (s : LinkSystem S R Task) (done : Task) (e : LinkEvent S R Task) :
    LinkSystem S R Task :=
  (s.withRt (piTaskPush s.rt (.other (.user done)))).record e

/-- Step 11. -/
def notifySender (s : LinkSystem S R Task) : Except Stop (LinkSystem S R Task) :=
  match s.sendReq, s.cpxSpi.sendDone with
  | none, _ => .ok s
  | some _, none => .error .nullPointer
  | some req, some done =>
    let s := (s.withCpxSpi s.cpxSpi.clearSend).pushDone done (.sendDone req done)
    .ok (s.withRt (coEventGroupClear s.rt spiEvents eventSend))

/-- Step 12. -/
def notifyReceiver (s : LinkSystem S R Task) : Except Stop (LinkSystem S R Task) :=
  match s.receiveReq, s.cpxSpi.receiveDone with
  | none, _ => .ok s
  | some _, none => .error .nullPointer
  | some req, some done =>
    let s := (s.withCpxSpi s.cpxSpi.clearReceive).pushDone done (.receiveDone req done)
    .ok (s.withRt (coEventGroupClear s.rt spiEvents eventReceive))

/-- `cpx_spi_task`, a step at a time. -/
def cpxSpiTask [DecidableEq R] (config : LinkConfig) (s : LinkSystem S R Task) :
    LinkStep → Except Stop (LinkSystem S R Task)
  | .step1 => waitEvents s .anyone
  | .step2 => waitEvents s .receiver
  | .step3 =>
    let events := coEventGroupGet s.rt spiEvents eventSend
    let s := s.withEvents events
    .ok ((if events &&& eventSend ≠ 0 then s.gap8RttSet true else s).goTo (some .step4))
  | .step4 => waitEvents s .nina
  | .step5 => .ok ((fetchRequests s).goTo (some .step6))
  | .step6 => transferPhase config (s.record (.start s.events s.sendReq s.receiveReq)) .header
  | .step7 => .ok ((s.gap8RttSet false).goTo (some .step8))
  | .step8 =>
    let s := s.withRt (coEventGroupClear s.rt spiEvents eventNinaRtt)
    .ok ((dropReceived config s).goTo (some .step9))
  | .step9 => transferPhase config s .head
  | .step10 => transferPhase config s .tail
  | .step11 => do
    let s ← notifySender s
    return s.goTo (some .step12)
  | .step12 => do
    let s ← notifyReceiver s
    return s.goTo (some .step1)

/-- Where the `switch` goes on; `*wait_mask = co_event_group_get(...)` ends a wait on the
group. -/
def resumeAt (s : LinkSystem S R Task) : ResumePoint → LinkSystem S R Task
  | .line 269 => (s.withEvents (coEventGroupGet s.rt spiEvents s.events)).goTo (some .step2)
  | .line 274 => (s.withEvents (coEventGroupGet s.rt spiEvents s.events)).goTo (some .step3)
  | .line 285 => (s.withEvents (coEventGroupGet s.rt spiEvents s.events)).goTo (some .step5)
  | .line 302 => s.goTo (some .step7)
  | .line 323 => s.goTo (some .step10)
  | .line 329 => s.goTo (some .step11)
  | _ => s.goTo (some .step1)

def cpxSpiResume (s : LinkSystem S R Task) : Except Stop (LinkSystem S R Task) := do
  let (resume, rt) ← coFnBegin s.rt cpxSpiCtx
  return resumeAt (s.withRt rt) resume

theorem cpxSpiResume_eq {s : LinkSystem S R Task} {resume : ResumePoint}
    {rt : Runtime Unit Unit Unit (LinkPiTask Task)}
    (h : coFnBegin s.rt cpxSpiCtx = .ok (resume, rt)) :
    cpxSpiResume s = .ok (resumeAt (s.withRt rt) resume) := by
  rw [cpxSpiResume, h]
  rfl

/-! ## The surroundings -/

/-- `nina_rtt_callback`. -/
def ninaRttCallback (rt : Runtime Unit Unit Unit (LinkPiTask Task)) :
    Runtime Unit Unit Unit (LinkPiTask Task) :=
  coEventGroupSet rt spiEvents eventNinaRtt

/-- `ninaRtt` is the level of the line. -/
def rttPinsInit (rt : Runtime Unit Unit Unit (LinkPiTask Task)) (ninaRtt : Bool) :
    Runtime Unit Unit Unit (LinkPiTask Task) :=
  if ninaRtt then ninaRttCallback rt else rt

def cpxSpiInit (rt : Runtime Unit Unit Unit (LinkPiTask Task)) (ninaRtt : Bool) :
    Runtime Unit Unit Unit (LinkPiTask Task) :=
  rttPinsInit (coEventGroupInit rt spiEvents) ninaRtt

def cpxSpiStart (rt : Runtime Unit Unit Unit (LinkPiTask Task)) :
    Except Stop (Runtime Unit Unit Unit (LinkPiTask Task)) :=
  coFnPushStart rt cpxSpiCtx cpxSpiTaskFn none

/-- A request filled in and given to the link, a rising edge of NINA's line, the end of
an SPI transfer with the header it may have brought, a push of some other task, the
scheduler taking the next one, or a step of the task that has control. -/
inductive LinkAction (S R Task : Type) where
  | send (req : S) (object : CpxSpiSendReq) (doneTask : Task)
  | receive (req : R) (object : CpxSpiReceiveReq) (doneTask : Task)
  | edge
  | complete (header : CpxSpiHeader)
  | push (t : Task)
  | schedule
  | step

/-- One request of a kind at a time, and only tasks make them; a task keeps control to
its next suspension; a transfer ends that is in flight. -/
def LinkAction.Enabled (s : LinkSystem S R Task) : LinkAction S R Task → Prop
  | send _ _ _ => s.step = none ∧ s.cpxSpi.sendReq = none
  | receive _ object _ => s.step = none ∧ s.cpxSpi.receiveReq = none ∧
      object.bufferSize.toNat = cpxSpiMtu
  | edge => True
  | complete _ => s.inFlight ≠ none
  | push _ => True
  | schedule => s.step = none ∧ s.rt.queue ≠ []
  | step => s.step ≠ none

/-- The objects of the requests with one of them filled in. -/
def LinkSystem.fillSend [DecidableEq S] (s : LinkSystem S R Task) (req : S)
    (object : CpxSpiSendReq) : LinkSystem S R Task :=
  { s with sendReqs := Function.update s.sendReqs req object }

def LinkSystem.fillReceive [DecidableEq R] (s : LinkSystem S R Task) (req : R)
    (object : CpxSpiReceiveReq) : LinkSystem S R Task :=
  { s with receiveReqs := Function.update s.receiveReqs req object }

/-- The header phase fills in the header of the receive request. -/
def storeReceived [DecidableEq R] (s : LinkSystem S R Task) (header : CpxSpiHeader) :
    Phase → LinkSystem S R Task
  | .header => match s.receiveReq with
    | some r => s.storeHeader r header
    | none => s
  | .head => s
  | .tail => s

/-- The end of the transfer in flight. -/
def endTransfer [DecidableEq R] (s : LinkSystem S R Task) (header : CpxSpiHeader) :
    LinkSystem S R Task :=
  match s.inFlight with
  | none => s
  | some (p, _) =>
    (((storeReceived s header p).fly none).withRt (piTaskPush s.rt (.event spiDone))).record
      (.ended p)

def LinkAction.run [DecidableEq S] [DecidableEq R] (config : LinkConfig)
    (s : LinkSystem S R Task) : LinkAction S R Task → Except Stop (LinkSystem S R Task)
  | send req object doneTask => do
    let (rt, cpxSpi) ← cpxSpiSendAsync s.rt spiEvents s.cpxSpi req doneTask
    return (((s.fillSend req object).withRt rt).withCpxSpi cpxSpi).record
      (.send req doneTask)
  | receive req object doneTask => do
    let (rt, cpxSpi) ← cpxSpiReceiveAsync s.rt spiEvents s.cpxSpi req object.bufferSize doneTask
    return (((s.fillReceive req object).withRt rt).withCpxSpi cpxSpi).record
      (.receive req doneTask)
  | edge => .ok (s.withRt (piTaskPush s.rt (.other .ninaRtt)))
  | complete header => .ok (endTransfer s header)
  | push t => .ok (s.withRt (piTaskPush s.rt (.other (.user t))))
  | schedule => match s.rt.queue with
    | [] => .ok s
    | .resume _ :: q => cpxSpiResume (s.withRt (s.rt.dequeue q))
    | .task (.event e) :: q => do
      let rt ← coEventCallback (s.rt.dequeueEvent e q) e
      return s.withRt rt
    | .task (.other .ninaRtt) :: q => .ok (s.withRt (ninaRttCallback (s.rt.dequeue q)))
    | .task (.other (.user _)) :: q => .ok (s.withRt (s.rt.dequeue q))
  | step => match s.step with
    | none => .ok s
    | some n => cpxSpiTask config s n

/-- The state after `cpx_spi_init` and `cpx_spi_start`. -/
structure LinkSystem.Started (s : LinkSystem S R Task) : Prop where
  rt : ∃ (rt : Runtime Unit Unit Unit (LinkPiTask Task)) (ninaRtt : Bool), rt.Initial ∧
    cpxSpiStart (cpxSpiInit rt ninaRtt) = .ok s.rt
  step : s.step = none
  sendReq : s.cpxSpi.sendReq = none
  receiveReq : s.cpxSpi.receiveReq = none
  gap8Rtt : s.gap8Rtt = false
  inFlight : s.inFlight = none
  log : s.log = []

def linkSystem (S R Task : Type) [DecidableEq S] [DecidableEq R] (config : LinkConfig) :
    Transition (LinkSystem S R Task) where
  init := LinkSystem.Started
  step s t := ∃ a : LinkAction S R Task, a.Enabled s ∧ a.run config s = .ok t

instance LinkAction.decidableEnabled (s : LinkSystem S R Task) (a : LinkAction S R Task) :
    Decidable (a.Enabled s) :=
  match a with
  | .send _ _ _ => inferInstanceAs (Decidable (s.step = none ∧ s.cpxSpi.sendReq = none))
  | .receive _ object _ => inferInstanceAs (Decidable (s.step = none ∧
      s.cpxSpi.receiveReq = none ∧ object.bufferSize.toNat = cpxSpiMtu))
  | .edge => inferInstanceAs (Decidable True)
  | .complete _ => inferInstanceAs (Decidable (s.inFlight ≠ none))
  | .push _ => inferInstanceAs (Decidable True)
  | .schedule => decidable_of_iff (s.step = none ∧ ¬ s.rt.queue.isEmpty)
      (and_congr_right fun _ => not_congr List.isEmpty_iff)
  | .step => inferInstanceAs (Decidable (s.step ≠ none))

/-- The state after `cpx_spi_start` in memory that was zero before. -/
def LinkSystem.fresh (sendReqs : S → CpxSpiSendReq) (receiveReqs : R → CpxSpiReceiveReq)
    (ninaRtt : Bool) : LinkSystem S R Task :=
  { rt := coFnPushResume (coFnInit (cpxSpiInit .zero ninaRtt) cpxSpiCtx cpxSpiTaskFn none) cpxSpiCtx
    step := none, cpxSpi := ⟨none, none, none, none⟩, sendReqs := sendReqs
    receiveReqs := receiveReqs, gap8Rtt := false, inFlight := none, events := 0, sendReq := none
    receiveReq := none, log := [] }

theorem LinkSystem.fresh_started (sendReqs : S → CpxSpiSendReq)
    (receiveReqs : R → CpxSpiReceiveReq) (ninaRtt : Bool) :
    (fresh sendReqs receiveReqs ninaRtt : LinkSystem S R Task).Started := by
  refine ⟨⟨.zero, ninaRtt, Runtime.zero_initial, ?_⟩, rfl, rfl, rfl, rfl, rfl, rfl⟩
  cases ninaRtt <;> rfl

section
variable [DecidableEq S] [DecidableEq R] (config : LinkConfig)

/-- A run given by its actions. -/
def LinkSystem.follow (s : LinkSystem S R Task) (l : List (LinkAction S R Task)) :
    Option (LinkSystem S R Task) :=
  Transition.follow (fun s a => LinkAction.Enabled s a) (LinkAction.run config) s l

variable {config}

theorem LinkSystem.follow_reachable {s t : LinkSystem S R Task} {l : List (LinkAction S R Task)}
    (h : (linkSystem S R Task config).Reachable s) (hf : s.follow config l = some t) :
    (linkSystem S R Task config).Reachable t :=
  h.follow _ _ (fun _ a _ ha hok => ⟨a, ha, hok⟩) hf

end

end

end AiDeck.Cpx
