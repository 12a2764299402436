import AiDeck.Lib.Transition
import AiDeck.Coroutine.Runtime

/-! # Programs of coroutines

A program calls the runtime from its coroutines, from the callbacks of its other tasks
and from interrupts. The machine takes one call at a time, each of them whole: an
interrupt falls between two calls, never into one, `co_event_group_wait` included
(`GroupWait` takes that one apart). What a coroutine does between two suspensions is any
sequence of calls. -/
namespace AiDeck.Coroutine
open AiDeck.Lib

variable {Ctx Event Group Task : Type}

/-- The calls that do not suspend. -/
inductive Op (Ctx Event Group Task : Type) where
  | pushStart (c : Ctx) (function : CoFn) (doneTask : Option (PiTask Event Task))
  | eventInit (e : Event)
  | push (t : PiTask Event Task)
  | groupSet (g : Group) (mask : BitVec 32)
  | groupClear (g : Group) (mask : BitVec 32)

/-- How a coroutine gives up control. -/
inductive Exit (Event Group : Type) where
  | yield (n : Nat)
  | wait (n : Nat) (e : Event)
  | waitGroup (n : Nat) (g : Group) (mask : BitVec 32) (mode : WaitMode)
  | ret

/-- A context that was started and has not returned. -/
def Live (s : Runtime Ctx Event Group Task) (c : Ctx) : Prop :=
  (s.returns c).length < (s.starts c).length

/-- Only contexts never started or finished are started, and only events nobody waits on
are initialised. -/
def Op.Allowed (s : Runtime Ctx Event Group Task) : Op Ctx Event Group Task → Prop
  | pushStart c _ _ => ¬ Live s c
  | eventInit e => s.lists.first e = none
  | push _ => True
  | groupSet _ _ => True
  | groupClear _ _ => True

/-- The suspension is a `case` of the function's `switch`. -/
def Exit.Valid (f : CoFn) : Exit Event Group → Prop
  | yield n => n ∈ f.lines
  | wait n _ => n ∈ f.lines
  | waitGroup n _ _ _ => n ∈ f.lines
  | ret => True

section
variable [DecidableEq Ctx] [DecidableEq Event] [DecidableEq Group]

def Op.run (s : Runtime Ctx Event Group Task) :
    Op Ctx Event Group Task → Except Stop (Runtime Ctx Event Group Task)
  | pushStart c function doneTask => coFnPushStart s c function doneTask
  | eventInit e => .ok (coEventInit s e)
  | push t => .ok (piTaskPush s t)
  | groupSet g mask => .ok (coEventGroupSet s g mask)
  | groupClear g mask => .ok (coEventGroupClear s g mask)

variable [Fintype Ctx]

def Exit.run (s : Runtime Ctx Event Group Task) (c : Ctx) :
    Exit Event Group → Except Stop (Runtime Ctx Event Group Task)
  | yield n => .ok (coYield s c n)
  | wait n e => coWait s c n e
  | waitGroup n g mask mode => coWaitGroup s c n g mask mode
  | ret => .ok (coReturn s c)

end

/-- No coroutine is between two suspensions, so the scheduler takes the next task. -/
def Runtime.Idle (s : Runtime Ctx Event Group Task) : Prop := ∀ c, s.resumePoint c ≠ .running

section
variable [DecidableEq Event]

/-- The scheduler takes the head of its queue; a task is done when its callback starts. -/
def Runtime.dequeue (s : Runtime Ctx Event Group Task) (q : List (Pending Ctx Event Task)) :
    Runtime Ctx Event Group Task :=
  { s with queue := q }

def Runtime.dequeueEvent (s : Runtime Ctx Event Group Task) (e : Event)
    (q : List (Pending Ctx Event Task)) : Runtime Ctx Event Group Task :=
  { s with queue := q, eventDone := Function.update s.eventDone e true }

variable [DecidableEq Ctx] [DecidableEq Group] [Fintype Ctx]

inductive Step : Runtime Ctx Event Group Task → Runtime Ctx Event Group Task → Prop
  | op {s t} (o : Op Ctx Event Group Task) (ha : o.Allowed s) (h : o.run s = .ok t) : Step s t
  | callback {s t e q} (hidle : s.Idle) (hq : s.queue = .task (.event e) :: q)
      (h : coEventCallback (s.dequeueEvent e q) e = .ok t) : Step s t
  | other {s x q} (hidle : s.Idle) (hq : s.queue = .task (.other x) :: q) : Step s (s.dequeue q)
  | resume {s t c p q} (hidle : s.Idle) (hq : s.queue = .resume c :: q)
      (h : coFnBegin (s.dequeue q) c = .ok (p, t)) : Step s t
  | exit {s t c} (x : Exit Event Group) (hrun : s.resumePoint c = .running)
      (hvalid : x.Valid (s.fn c)) (h : x.run s c = .ok t) : Step s t

/-- Zero-initialised contexts, no waiters, an empty queue. -/
structure Runtime.Initial (s : Runtime Ctx Event Group Task) : Prop where
  resumePoint : ∀ c, s.resumePoint c = .start
  first : ∀ e, s.lists.first e = none
  next : ∀ c, s.lists.next c = none
  waitCtx : ∀ g, (s.group g).waitCtx = none
  queue : s.queue = []
  starts : ∀ c, s.starts c = []
  returns : ∀ c, s.returns c = []
  waits : ∀ e, s.waits e = []
  resumes : ∀ e, s.resumes e = []
  waitsOn : ∀ c, s.waitsOn c = none

/-- The machine that runs the programs over given contexts, events and groups. -/
def machine (Ctx Event Group Task : Type) [DecidableEq Ctx] [DecidableEq Event]
    [DecidableEq Group] [Fintype Ctx] : Transition (Runtime Ctx Event Group Task) where
  init := Runtime.Initial
  step := Step

end

section
variable {Ctx Event Group Task : Type}

/-- Memory before anything is started. -/
def Runtime.zero : Runtime Ctx Event Group Task :=
  { fn := fun _ => ⟨[]⟩, resumePoint := fun _ => .start, doneTask := fun _ => none
    lists := ⟨fun _ => none, fun _ => none⟩, eventDone := fun _ => false
    group := fun _ => ⟨0, none, 0, .any⟩, queue := [], starts := fun _ => []
    returns := fun _ => [], waits := fun _ => [], resumes := fun _ => []
    waitsOn := fun _ => none }

theorem Runtime.zero_initial : (zero : Runtime Ctx Event Group Task).Initial := by
  constructor <;> first | rfl | exact fun _ => rfl

end

end AiDeck.Coroutine
