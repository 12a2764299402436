import AiDeck.Coroutine.Machine
import AiDeck.Queues.Queue

/-! # The asynchronous queue

The second half of nanocockpit/lib/queue.c: a queue with two coroutines, one that
acquires for a waiting producer and one that consumes for a waiting consumer. -/
namespace AiDeck.Queues
open AiDeck.Lib AiDeck.Coroutine

/-- The side of the producer and that of the consumer: the coroutine that waits for it,
and the event that coroutine waits on. -/
inductive Side where
  | push
  | pop
  deriving DecidableEq, Repr

instance Side.fintype : Fintype Side where
  elems := {push, pop}
  complete d := by cases d <;> simp

abbrev pushCtx : Side := .push
abbrev popCtx : Side := .pop
abbrev queueFree : Side := .push
abbrev queueReady : Side := .pop

/-- The line of the `CO_WAIT` of a side's coroutine. -/
def Side.line : Side → Nat
  | push => 215
  | pop => 266

def Side.fn (d : Side) : CoFn := ⟨[d.line]⟩

/-- The runtime, `queue_async_t` and the pointer variables of the clients; `el` is `push_el`
and `pop_el`. The last three fields are the history: the `done_task`s that ran, those given
to asynchronous calls, and those pushed with the element the call had stored. -/
structure AsyncSystem (Task : Type) where
  rt : Runtime Side Side Empty Task
  q : Queue
  el : Side → Address
  vars : Address → Address
  ran : List Task
  asked : Side → List Task
  completed : Side → List (Task × Address)

variable {Task : Type}

namespace AsyncSystem

def withRt (s : AsyncSystem Task) (rt : Runtime Side Side Empty Task) : AsyncSystem Task :=
  { s with rt := rt }

def setQueue (s : AsyncSystem Task) (q : Queue) : AsyncSystem Task := { s with q := q }

def setEl (s : AsyncSystem Task) (d : Side) (el : Address) : AsyncSystem Task :=
  { s with el := Function.update s.el d el }

/-- `*el = …`, with the queue left by the call on the right. -/
def stored (s : AsyncSystem Task) (el : Address) (x : Address × Queue) : AsyncSystem Task :=
  { s with q := x.2, vars := Function.update s.vars el x.1 }

def ask (s : AsyncSystem Task) (d : Side) (t : Task) : AsyncSystem Task :=
  { s with asked := Function.update s.asked d (s.asked d ++ [t]) }

/-- The history of a call whose `done_task` is pushed. -/
def complete (s : AsyncSystem Task) (d : Side) (doneTask : Option Task) (el : Address) :
    AsyncSystem Task :=
  { s with
    completed := Function.update s.completed d <|
      s.completed d ++ doneTask.toList.map fun t => (t, s.vars el) }

def run (s : AsyncSystem Task) (t : Task) : AsyncSystem Task := { s with ran := s.ran ++ [t] }

end AsyncSystem

/-- The `done_task` a context was started with. -/
def doneTaskOf (rt : Runtime Side Side Empty Task) (d : Side) : Option Task :=
  match rt.doneTask d with
  | some (.other t) => some t
  | _ => none

def queueAsyncInit (rt : Runtime Side Side Empty Task) (vars : Address → Address)
    (capacity elSize : Nat) (buffer : Address) : Except Stop (AsyncSystem Task) := do
  let q ← queueInit capacity elSize buffer
  let rt := coEventPush (coEventInit rt queueFree) queueFree
  let rt := coEventInit rt queueReady
  return { rt := rt, q := q, el := fun _ => 0, vars := vars, ran := [], asked := fun _ => []
           completed := fun _ => [] }

/-! ## The waiting coroutines -/

/-- The end of a waiting coroutine: its pointer is cleared and its `done_task` pushed. -/
def AsyncSystem.finish (s : AsyncSystem Task) (d : Side) : AsyncSystem Task :=
  ((s.complete d (doneTaskOf s.rt d) (s.el d)).setEl d 0).withRt (coReturn s.rt d)

/-- The coroutine of a side from the end of its wait on, with the call it makes and the
assertion that the call has given it an element. -/
def asyncTaskResumed (d : Side) (take : Queue → Except Stop (Address × Queue))
    (message : String) (s : AsyncSystem Task) : Except Stop (AsyncSystem Task) := do
  if s.el d = 0 then .error .nullPointer
  else
    let x ← take s.q
    if x.1 = 0 then .error (.assertion message)
    else return (s.stored (s.el d) x).finish d

/-- The coroutine of a side from where it is resumed to its next suspension. -/
def asyncTask (d : Side) (take : Queue → Except Stop (Address × Queue)) (message : String)
    (s : AsyncSystem Task) : Except Stop (AsyncSystem Task) := do
  let begun ← coFnBegin s.rt d
  if begun.1 = .line d.line then asyncTaskResumed d take message (s.withRt begun.2)
  else
    let rt ← coWait begun.2 d d.line d
    return s.withRt rt

def queueAsyncPushTask (s : AsyncSystem Task) : Except Stop (AsyncSystem Task) :=
  asyncTask pushCtx (fun q => queuePushAcquire q false)
    "queue_free asserted but queue is full\n" s

def queueAsyncPopTask (s : AsyncSystem Task) : Except Stop (AsyncSystem Task) :=
  asyncTask popCtx queuePopConsume "queue_ready asserted but queue is empty\n" s

/-! ## Calls -/

/-- The call has an element: `done_task` is pushed unless it is `NULL`. -/
def AsyncSystem.taken (s : AsyncSystem Task) (d : Side) (el : Address) :
    Option Task → AsyncSystem Task
  | some t => ((s.ask d t).complete d (some t) el).withRt (piTaskPush s.rt (.other t))
  | none => s

/-- The call has no element: it waits unless `done_task` is `NULL`. -/
def asyncWait (d : Side) (busy : String) (s : AsyncSystem Task) (el : Address) :
    Option Task → Except Stop (AsyncSystem Task)
  | none => .ok s
  | some t =>
    if s.el d ≠ 0 then .error (.assertion busy)
    else do
      let rt ← coFnPushStart (coEventInit s.rt d) d d.fn (some (.other t))
      return ((s.setEl d el).ask d t).withRt rt

/-- A call of a side: at once if the queue has an element for it, or by its coroutine. -/
def asyncTake (d : Side) (take : Queue → Except Stop (Address × Queue)) (busy : String)
    (s : AsyncSystem Task) (el : Address) (doneTask : Option Task) :
    Except Stop (AsyncSystem Task) := do
  if el = 0 then .error .nullPointer
  else
    let x ← take s.q
    if x.1 ≠ 0 then return (s.stored el x).taken d el doneTask
    else asyncWait d busy (s.stored el x) el doneTask

def queueAsyncPushAcquire (s : AsyncSystem Task) (el : Address) (doneTask : Option Task) :
    Except Stop (AsyncSystem Task) :=
  asyncTake pushCtx (fun q => queuePushAcquire q false)
    "Another producer already waiting to push\n" s el doneTask

def queueAsyncPopConsume (s : AsyncSystem Task) (el : Address) (doneTask : Option Task) :
    Except Stop (AsyncSystem Task) :=
  asyncTake popCtx queuePopConsume "Another consumer already waiting to pop\n" s el doneTask

def queueAsyncPushCommit (s : AsyncSystem Task) (el : Address) :
    Except Stop (AsyncSystem Task) := do
  let q ← queuePushCommit s.q el
  return (s.setQueue q).withRt (coEventPush s.rt queueReady)

def queueAsyncPushDiscard (s : AsyncSystem Task) (el : Address) :
    Except Stop (AsyncSystem Task) := do
  let q ← queuePushDiscard s.q el
  return s.setQueue q

def queueAsyncPopRelease (s : AsyncSystem Task) (el : Address) :
    Except Stop (AsyncSystem Task) := do
  let q ← queuePopRelease s.q el
  return (s.setQueue q).withRt (coEventPush s.rt queueFree)

/-! ## Runs -/

/-- A call of the producer or of the consumer, or the scheduler taking its next task. -/
inductive AsyncAction (Task : Type) where
  | acquire (el : Address) (doneTask : Option Task)
  | commit (el : Address)
  | discard (el : Address)
  | consume (el : Address) (doneTask : Option Task)
  | release (el : Address)
  | schedule
  deriving DecidableEq

/-- Elements are committed, discarded and released in order, and a side makes no
asynchronous call while one of it waits. -/
def AsyncAction.Enabled (s : AsyncSystem Task) : AsyncAction Task → Prop
  | acquire el doneTask => el ≠ 0 ∧ (doneTask.isSome → s.el .push = 0)
  | commit el => s.q.countAcq ≠ 0 ∧ el = s.q.slot s.q.endReady
  | discard el => s.q.countAcq ≠ 0 ∧ el = s.q.slot s.q.prevEndAcq
  | consume el doneTask => el ≠ 0 ∧ (doneTask.isSome → s.el .pop = 0)
  | release el => s.q.countConsume ≠ 0 ∧ el = s.q.slot s.q.startConsume
  | schedule => s.rt.queue.isEmpty = false

instance AsyncAction.decidableEnabled (s : AsyncSystem Task) (a : AsyncAction Task) :
    Decidable (a.Enabled s) :=
  match a with
  | .acquire el doneTask =>
    inferInstanceAs (Decidable (el ≠ 0 ∧ (doneTask.isSome → s.el .push = 0)))
  | .commit el => inferInstanceAs (Decidable (s.q.countAcq ≠ 0 ∧ el = s.q.slot s.q.endReady))
  | .discard el =>
    inferInstanceAs (Decidable (s.q.countAcq ≠ 0 ∧ el = s.q.slot s.q.prevEndAcq))
  | .consume el doneTask =>
    inferInstanceAs (Decidable (el ≠ 0 ∧ (doneTask.isSome → s.el .pop = 0)))
  | .release el =>
    inferInstanceAs (Decidable (s.q.countConsume ≠ 0 ∧ el = s.q.slot s.q.startConsume))
  | .schedule => inferInstanceAs (Decidable (s.rt.queue.isEmpty = false))

/-- The coroutine of a side is resumed. -/
def queueAsyncTask : Side → AsyncSystem Task → Except Stop (AsyncSystem Task)
  | .push => queueAsyncPushTask
  | .pop => queueAsyncPopTask

/-- The scheduler takes the head of its queue. -/
def schedule (s : AsyncSystem Task) : Except Stop (AsyncSystem Task) :=
  match s.rt.queue with
  | [] => .ok s
  | .resume d :: rest => queueAsyncTask d (s.withRt (s.rt.dequeue rest))
  | .task (.event e) :: rest => do
    let rt ← coEventCallback (s.rt.dequeueEvent e rest) e
    return s.withRt rt
  | .task (.other t) :: rest => .ok ((s.run t).withRt (s.rt.dequeue rest))

def AsyncAction.run (s : AsyncSystem Task) : AsyncAction Task → Except Stop (AsyncSystem Task)
  | acquire el doneTask => queueAsyncPushAcquire s el doneTask
  | commit el => queueAsyncPushCommit s el
  | discard el => queueAsyncPushDiscard s el
  | consume el doneTask => queueAsyncPopConsume s el doneTask
  | release el => queueAsyncPopRelease s el
  | schedule => AiDeck.Queues.schedule s

/-- The state after `queue_async_init`. -/
def AsyncSystem.Started (capacity : Nat) (s : AsyncSystem Task) : Prop :=
  ∃ (rt : Runtime Side Side Empty Task) (vars : Address → Address) (elSize : Nat)
    (buffer : Address), rt.Initial ∧ queueAsyncInit rt vars capacity elSize buffer = .ok s

/-- The runs whose actions all meet a condition on the state before them. -/
def asyncQueue (Task : Type) (capacity : Nat)
    (cond : AsyncSystem Task → AsyncAction Task → Prop) : Transition (AsyncSystem Task) where
  init := AsyncSystem.Started capacity
  step s t := ∃ a : AsyncAction Task, a.Enabled s ∧ cond s a ∧ a.run s = .ok t

end AiDeck.Queues
