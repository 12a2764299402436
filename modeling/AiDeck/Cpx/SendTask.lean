import AiDeck.Coroutine.Invariant
import AiDeck.Cpx.SpiRequests

/-! # Sending CPX packets

`cpx_start`, `cpx_send_async` and `cpx_send_task` (nanocockpit/lib/cpx/cpx.c) over the
coroutine runtime, with the end of an SPI transfer (step 11 of `cpx_spi_task`) as a
step of the surroundings. One event, `send_done`, passes the turn from a request to
the next and tells the owner that its transfer is over. -/
namespace AiDeck.Cpx
open AiDeck.Coroutine AiDeck.Lib

/-- What has happened to a request. -/
inductive Stage where
  | called
  | handed
  | spiDone
  | donePushed
  deriving DecidableEq, Repr

/-- The life of a request, from `cpx_send_async` to the push of its `done_task`. -/
def life : List Stage := [.called, .handed, .spiDone, .donePushed]

/-- The contexts are those of the requests, the event is `send_done` and the group is that
of the link. `trace`, `calls` and `handed` are the history. -/
structure SendSystem (Req Task : Type) where
  rt : Runtime Req Unit Unit Task
  cpxSpi : CpxSpi Req Empty (PiTask Unit Task)
  trace : Req → List Stage
  calls : List Req
  handed : List Req

abbrev sendDone : Unit := ()
abbrev linkEvents : Unit := ()

/-- The `CO_WAIT` of the loop that waits for the turn. -/
abbrev lineTurn : Nat := 132
/-- The `CO_WAIT` for the end of the transfer. -/
abbrev lineSent : Nat := 139

def cpxSendTaskFn : CoFn := ⟨[lineTurn, lineSent]⟩

section
variable {Req Task : Type}

def SendSystem.withRt (s : SendSystem Req Task) (rt : Runtime Req Unit Unit Task) :
    SendSystem Req Task :=
  { s with rt := rt }

variable [DecidableEq Req]

def SendSystem.stage (s : SendSystem Req Task) (r : Req) (stage : Stage) : SendSystem Req Task :=
  { s with trace := Function.update s.trace r (s.trace r ++ [stage]) }

/-- The push of `cpx_start` that completes `send_done` initially. -/
def cpxStart (rt : Runtime Req Unit Unit Task) : Runtime Req Unit Unit Task :=
  piTaskPush (coEventInit rt sendDone) (.event sendDone)

/-- The application's `done_task` is not `send_done`, which belongs to `cpx_t`. -/
def cpxSendAsync (s : SendSystem Req Task) (sendReq : Req) (doneTask : Option Task) :
    Except Stop (SendSystem Req Task) := do
  let rt ← coFnPushStart s.rt sendReq cpxSendTaskFn (doneTask.map .other)
  return { (s.withRt rt).stage sendReq .called with calls := s.calls ++ [sendReq] }

/-- Step 11 of `cpx_spi_task` at the end of a transfer that carries the request. -/
def spiComplete (s : SendSystem Req Task) : SendSystem Req Task :=
  match s.cpxSpi.sendReq, s.cpxSpi.sendDone with
  | some r, some done =>
    { (s.withRt (coEventGroupClear (piTaskPush s.rt done) linkEvents eventSend)).stage r .spiDone with
      cpxSpi := s.cpxSpi.clearSend }
  | _, _ => s

/-- `cpx_send_task` from the end of the wait at `lineSent` on. -/
def sendTaskEnd (s : SendSystem Req Task) (sendReq : Req) : SendSystem Req Task :=
  (s.withRt (coReturn s.rt sendReq)).stage sendReq .donePushed

variable [Fintype Req]

/-- `cpx_send_task` from the end of the loop to the wait at `lineSent`; `co_event_init`
is evaluated before the call it is an argument of. -/
def sendTaskHand (s : SendSystem Req Task) (sendReq : Req) : Except Stop (SendSystem Req Task) := do
  let (rt, cpxSpi) ← cpxSpiSendAsync (coEventInit s.rt sendDone) linkEvents s.cpxSpi sendReq
    (.event sendDone)
  let rt ← coWait rt sendReq lineSent sendDone
  return { (s.withRt rt).stage sendReq .handed with
    cpxSpi := cpxSpi, handed := s.handed ++ [sendReq] }

/-- One test of the loop that waits for the turn. -/
def sendTaskTurn (s : SendSystem Req Task) (sendReq : Req) : Except Stop (SendSystem Req Task) :=
  if coEventIsDone s.rt sendDone then sendTaskHand s sendReq
  else do
    let rt ← coWait s.rt sendReq lineTurn sendDone
    return s.withRt rt

/-- `cpx_send_task` from where it is resumed to its next suspension. -/
def cpxSendTask (s : SendSystem Req Task) (sendReq : Req) : Except Stop (SendSystem Req Task) := do
  let (resume, rt) ← coFnBegin s.rt sendReq
  if resume = .line lineSent then return sendTaskEnd (s.withRt rt) sendReq
  else sendTaskTurn (s.withRt rt) sendReq

theorem cpxSendTask_eq {s : SendSystem Req Task} {sendReq : Req} {resume : ResumePoint}
    {rt : Runtime Req Unit Unit Task} (h : coFnBegin s.rt sendReq = .ok (resume, rt)) :
    cpxSendTask s sendReq =
      if resume = .line lineSent then .ok (sendTaskEnd (s.withRt rt) sendReq)
      else sendTaskTurn (s.withRt rt) sendReq := by
  rw [cpxSendTask, h]
  rfl

/-! ## Steps -/

/-- A call of `cpx_send_async`, the end of an SPI transfer, a push of some other task, or
the scheduler taking the next one. -/
inductive SendAction (Req Task : Type) where
  | call (r : Req) (doneTask : Option Task)
  | complete
  | push (t : Task)
  | schedule

/-- Each request is sent once; a transfer ends that is in progress. -/
def SendAction.Enabled (s : SendSystem Req Task) : SendAction Req Task → Prop
  | call r _ => s.trace r = []
  | complete => s.cpxSpi.sendReq ≠ none
  | push _ => True
  | schedule => s.rt.queue ≠ []

def SendAction.run (s : SendSystem Req Task) :
    SendAction Req Task → Except Stop (SendSystem Req Task)
  | call r doneTask => cpxSendAsync s r doneTask
  | complete => .ok (spiComplete s)
  | push t => .ok (s.withRt (piTaskPush s.rt (.other t)))
  | schedule => match s.rt.queue with
    | [] => .ok s
    | .resume r :: q => cpxSendTask (s.withRt (s.rt.dequeue q)) r
    | .task (.event e) :: q => do
      let rt ← coEventCallback (s.rt.dequeueEvent e q) e
      return s.withRt rt
    | .task (.other _) :: q => .ok (s.withRt (s.rt.dequeue q))

/-- The state after `cpx_start`. -/
structure SendSystem.Started (s : SendSystem Req Task) : Prop where
  rt : ∃ rt : Runtime Req Unit Unit Task, rt.Initial ∧ s.rt = cpxStart rt
  sendReq : s.cpxSpi.sendReq = none
  trace : ∀ r, s.trace r = []
  calls : s.calls = []
  handed : s.handed = []

def sendSystem (Req Task : Type) [DecidableEq Req] [Fintype Req] :
    Transition (SendSystem Req Task) where
  init := SendSystem.Started
  step s t := ∃ a : SendAction Req Task, a.Enabled s ∧ a.run s = .ok t

instance SendAction.decidableEnabled (s : SendSystem Req Task) (a : SendAction Req Task) :
    Decidable (a.Enabled s) :=
  match a with
  | .call r _ => inferInstanceAs (Decidable (s.trace r = []))
  | .complete => inferInstanceAs (Decidable (s.cpxSpi.sendReq ≠ none))
  | .push _ => inferInstanceAs (Decidable True)
  | .schedule => decidable_of_iff (¬ s.rt.queue.isEmpty) (not_congr List.isEmpty_iff)

/-- A run given by its actions. -/
def SendSystem.follow (s : SendSystem Req Task) (l : List (SendAction Req Task)) :
    Option (SendSystem Req Task) :=
  Transition.follow (fun s a => SendAction.Enabled s a) SendAction.run s l

theorem SendSystem.follow_reachable {s t : SendSystem Req Task} {l : List (SendAction Req Task)}
    (h : (sendSystem Req Task).Reachable s) (hf : s.follow l = some t) :
    (sendSystem Req Task).Reachable t :=
  h.follow _ _ (fun _ a _ ha hok => ⟨a, ha, hok⟩) hf

end

section
variable {Req Task : Type}

/-- The state after `cpx_start` in memory that was zero before. -/
def SendSystem.fresh : SendSystem Req Task :=
  { rt := cpxStart .zero, cpxSpi := ⟨none, none, none, none⟩, trace := fun _ => []
    calls := [], handed := [] }

theorem SendSystem.fresh_started : (fresh : SendSystem Req Task).Started := by
  exact ⟨⟨.zero, Runtime.zero_initial, rfl⟩, rfl, fun _ => rfl, rfl, rfl⟩

end

end AiDeck.Cpx
