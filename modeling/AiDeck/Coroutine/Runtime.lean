import AiDeck.Coroutine.List

/-! # Coroutines, events and event groups

nanocockpit/lib/coroutine.h and event_group.h over the scheduler of the SDK: a pushed
task is queued, the queue is served in order, `pi_task_callback` clears `done` and a
task is done when its callback starts. -/
namespace AiDeck.Coroutine

/-- `co_fn_resume_t`: the three named points, or the source line of a suspension. -/
inductive ResumePoint where
  | start
  | running
  | done
  | line (n : Nat)
  deriving DecidableEq, Repr

/-- A coroutine function, as far as its `switch` goes: the lines it suspends at. -/
structure CoFn where
  lines : List Nat

/-- A `pi_task_t` that is not the `resume_task` of a context: the `done_task` of an event,
or one of other code. -/
inductive PiTask (Event Task : Type) where
  | event (e : Event)
  | other (t : Task)
  deriving DecidableEq

/-- A task in the queue of the scheduler. -/
inductive Pending (Ctx Event Task : Type) where
  | resume (c : Ctx)
  | task (t : PiTask Event Task)
  deriving DecidableEq

inductive WaitMode where
  /-- `CO_WAIT_MODE_ANY` -/
  | any
  /-- `CO_WAIT_MODE_ALL` -/
  | all
  deriving DecidableEq, Repr

/-- `co_event_group_t`. -/
structure EventGroup (Ctx : Type) where
  mask : BitVec 32
  waitCtx : Option Ctx
  waitMask : BitVec 32
  waitMode : WaitMode
  deriving DecidableEq

def EventGroup.withMask {Ctx : Type} (g : EventGroup Ctx) (mask : BitVec 32) : EventGroup Ctx :=
  { g with mask := mask }

/-- `wait_ctx = NULL`. -/
def EventGroup.released {Ctx : Type} (g : EventGroup Ctx) : EventGroup Ctx :=
  { g with waitCtx := none }

/-- The contexts, events and groups of a program and the queue of the scheduler. The last
five fields are the history: the `done_task`s given to the starts of a context and those
its returns handed on, the contexts that waited on an event and those that went on
from there, and the event a suspended context waits on. -/
structure Runtime (Ctx Event Group Task : Type) where
  fn : Ctx → CoFn
  resumePoint : Ctx → ResumePoint
  doneTask : Ctx → Option (PiTask Event Task)
  lists : Lists Event Ctx
  eventDone : Event → Bool
  group : Group → EventGroup Ctx
  queue : List (Pending Ctx Event Task)
  starts : Ctx → List (Option (PiTask Event Task))
  returns : Ctx → List (Option (PiTask Event Task))
  waits : Event → List Ctx
  resumes : Event → List Ctx
  waitsOn : Ctx → Option Event

variable {Ctx Event Group Task : Type}

def Runtime.withLists (s : Runtime Ctx Event Group Task) (lists : Lists Event Ctx) :
    Runtime Ctx Event Group Task :=
  { s with lists := lists }

/-- The contexts of `l` queued one after the other, the lists changed meanwhile. -/
def Runtime.resumeAll (s : Runtime Ctx Event Group Task) (lists : Lists Event Ctx)
    (l : List Ctx) : Runtime Ctx Event Group Task :=
  { s with lists := lists, queue := s.queue ++ l.map .resume }

/-- `pi_task_push`. -/
def piTaskPush (s : Runtime Ctx Event Group Task) (t : PiTask Event Task) :
    Runtime Ctx Event Group Task :=
  { s with queue := s.queue ++ [.task t] }

/-! ## coroutine.h -/

def coFnPushResume (s : Runtime Ctx Event Group Task) (c : Ctx) : Runtime Ctx Event Group Task :=
  { s with queue := s.queue ++ [.resume c] }

def coEventIsDone (s : Runtime Ctx Event Group Task) (e : Event) : Bool := s.eventDone e

def coEventPush (s : Runtime Ctx Event Group Task) (e : Event) : Runtime Ctx Event Group Task :=
  piTaskPush s (.event e)

section
variable [DecidableEq Ctx]

def coFnSuspend (s : Runtime Ctx Event Group Task) (c : Ctx) (resumePoint : ResumePoint) :
    Runtime Ctx Event Group Task :=
  { s with resumePoint := Function.update s.resumePoint c resumePoint }

/-- The assignments of `co_fn_push_start`. -/
def coFnInit (s : Runtime Ctx Event Group Task) (c : Ctx) (function : CoFn)
    (doneTask : Option (PiTask Event Task)) : Runtime Ctx Event Group Task :=
  { s with
    fn := Function.update s.fn c function
    resumePoint := Function.update s.resumePoint c .start
    doneTask := Function.update s.doneTask c doneTask
    lists := listElInit s.lists c
    starts := Function.update s.starts c (s.starts c ++ [doneTask]) }

def coFnPushStart (s : Runtime Ctx Event Group Task) (c : Ctx) (function : CoFn)
    (doneTask : Option (PiTask Event Task)) : Except Stop (Runtime Ctx Event Group Task) :=
  if s.resumePoint c ≠ .start ∧ s.resumePoint c ≠ .done then
    .error (.assertion "Function not correctly initialized or started while already running")
  else .ok (coFnPushResume (coFnInit s c function doneTask) c)

/-- `pi_task_push` of the `done_task` of a context, unless it is `NULL`. The history has
what was pushed. -/
def pushDoneTask (s : Runtime Ctx Event Group Task) (c : Ctx) :
    Option (PiTask Event Task) → Runtime Ctx Event Group Task
  | some t =>
    { piTaskPush s t with returns := Function.update s.returns c (s.returns c ++ [some t]) }
  | none => { s with returns := Function.update s.returns c (s.returns c ++ [none]) }

/-- `CO_RETURN`. -/
def coReturn (s : Runtime Ctx Event Group Task) (c : Ctx) : Runtime Ctx Event Group Task :=
  pushDoneTask (coFnSuspend s c .done) c (s.doneTask c)

/-- `CO_YIELD` at line `n`. -/
def coYield (s : Runtime Ctx Event Group Task) (c : Ctx) (n : Nat) : Runtime Ctx Event Group Task :=
  coFnPushResume (coFnSuspend s c (.line n)) c

variable [DecidableEq Event]

/-- The history of a context that goes on: its wait is over. -/
def recordResume (s : Runtime Ctx Event Group Task) (c : Ctx) : Runtime Ctx Event Group Task :=
  match s.waitsOn c with
  | none => s
  | some e =>
    { s with
      resumes := Function.update s.resumes e (s.resumes e ++ [c])
      waitsOn := Function.update s.waitsOn c none }

/-- The history of a context that waits on an event. -/
def recordWait (s : Runtime Ctx Event Group Task) (e : Event) (c : Ctx) :
    Runtime Ctx Event Group Task :=
  { s with
    waits := Function.update s.waits e (s.waits e ++ [c])
    waitsOn := Function.update s.waitsOn c (some e) }

/-- `CO_FN_BEGIN` and the `switch` closed by `CO_FN_END`: where the function goes on. -/
def coFnBegin (s : Runtime Ctx Event Group Task) (c : Ctx) :
    Except Stop (ResumePoint × Runtime Ctx Event Group Task) :=
  let resume := s.resumePoint c
  let running := coFnSuspend (recordResume s c) c .running
  match resume with
  | .start => .ok (resume, running)
  | .running => .error (.assertion "Function resumed without being properly suspended first.\n")
  | .done => .error (.assertion "Function resumed after having concluded.\n")
  | .line n =>
    if n ∈ (s.fn c).lines then .ok (resume, running)
    else .error (.assertion "Function resumed from invalid resume point %d.\n")

/-- The rounds of the loop of `co_event_callback`. -/
def coEventCallbackLoop : Nat → Runtime Ctx Event Group Task → Event →
    Except Stop (Runtime Ctx Event Group Task)
  | 0, _, _ => .error .diverged
  | n + 1, s, e => match listPopFront s.lists e with
    | (none, lists) => .ok { s with lists := lists }
    | (some c, lists) => coEventCallbackLoop n (coFnPushResume { s with lists := lists } c) e

def coEventInit (s : Runtime Ctx Event Group Task) (e : Event) : Runtime Ctx Event Group Task :=
  { s with
    lists := listHeadInit s.lists e
    eventDone := Function.update s.eventDone e false }

variable [Fintype Ctx]

def coEventCallback (s : Runtime Ctx Event Group Task) (e : Event) :
    Except Stop (Runtime Ctx Event Group Task) :=
  coEventCallbackLoop (Fintype.card Ctx + 1) s e

def coEventWait (s : Runtime Ctx Event Group Task) (e : Event) (c : Ctx) :
    Except Stop (Runtime Ctx Event Group Task) := do
  let lists ← listAppend s.lists e c
  let s := recordWait (s.withLists lists) e c
  if coEventIsDone s e then
    let lists ← listClear s.lists e
    return coFnPushResume (s.withLists lists) c
  else return s

/-- `CO_WAIT` at line `n`. -/
def coWait (s : Runtime Ctx Event Group Task) (c : Ctx) (n : Nat) (e : Event) :
    Except Stop (Runtime Ctx Event Group Task) :=
  coEventWait (coFnSuspend s c (.line n)) e c

end

/-! ## event_group.h -/

def coEventGroupTest (g : EventGroup Ctx) (waitMask : BitVec 32) : WaitMode → Bool
  | .any => g.mask &&& waitMask ≠ 0
  | .all => g.mask &&& waitMask = waitMask

def coEventGroupGet (s : Runtime Ctx Event Group Task) (g : Group) (getMask : BitVec 32) :
    BitVec 32 :=
  (s.group g).mask &&& getMask

section
variable [DecidableEq Group]

def Runtime.setGroup (s : Runtime Ctx Event Group Task) (g : Group) (x : EventGroup Ctx) :
    Runtime Ctx Event Group Task :=
  { s with group := Function.update s.group g x }

@[simp] theorem Runtime.setGroup_group (s : Runtime Ctx Event Group Task) (g : Group)
    (x : EventGroup Ctx) : (s.setGroup g x).group g = x := Function.update_self ..

def coEventGroupInit (s : Runtime Ctx Event Group Task) (g : Group) :
    Runtime Ctx Event Group Task :=
  s.setGroup g ⟨0, none, 0, .any⟩

def coEventGroupUpdate (s : Runtime Ctx Event Group Task) (g : Group) :
    Runtime Ctx Event Group Task :=
  match (s.group g).waitCtx with
  | none => s
  | some c =>
    if coEventGroupTest (s.group g) (s.group g).waitMask (s.group g).waitMode then
      (coFnPushResume s c).setGroup g (s.group g).released
    else s

def coEventGroupSet (s : Runtime Ctx Event Group Task) (g : Group) (setMask : BitVec 32) :
    Runtime Ctx Event Group Task :=
  coEventGroupUpdate (s.setGroup g ((s.group g).withMask ((s.group g).mask ||| setMask))) g

def coEventGroupClear (s : Runtime Ctx Event Group Task) (g : Group) (clearMask : BitVec 32) :
    Runtime Ctx Event Group Task :=
  s.setGroup g ((s.group g).withMask ((s.group g).mask &&& ~~~((s.group g).mask &&& clearMask)))

def coEventGroupWait (s : Runtime Ctx Event Group Task) (g : Group) (c : Ctx)
    (waitMask : BitVec 32) (waitMode : WaitMode) : Except Stop (Runtime Ctx Event Group Task) :=
  if (s.group g).waitCtx.isSome then
    .error (.assertion "Multiple waits on a co_event_group_t, not implemented yet.\n")
  else if coEventGroupTest (s.group g) waitMask waitMode then
    .ok (coFnPushResume (s.setGroup g ⟨(s.group g).mask, none, waitMask, waitMode⟩) c)
  else .ok (s.setGroup g ⟨(s.group g).mask, some c, waitMask, waitMode⟩)

/-- `CO_WAIT_GROUP` at line `n`, up to its `return`. -/
def coWaitGroup [DecidableEq Ctx] (s : Runtime Ctx Event Group Task) (c : Ctx) (n : Nat)
    (g : Group) (waitMask : BitVec 32) (waitMode : WaitMode) :
    Except Stop (Runtime Ctx Event Group Task) :=
  coEventGroupWait (coFnSuspend s c (.line n)) g c waitMask waitMode

end

/-- Setting the bits of a group nobody waits on. -/
theorem coEventGroupSet_alone [DecidableEq Group] {s : Runtime Ctx Event Group Task} {g : Group}
    (h : (s.group g).waitCtx = none) (m : BitVec 32) :
    coEventGroupSet s g m =
      s.setGroup g ((s.group g).withMask ((s.group g).mask ||| m)) := by
  have hgroup : (s.setGroup g ((s.group g).withMask ((s.group g).mask ||| m))).group g =
      (s.group g).withMask ((s.group g).mask ||| m) := Function.update_self ..
  rw [coEventGroupSet, coEventGroupUpdate, hgroup, EventGroup.withMask, h]

/-- Setting bits that do not meet the condition of the waiter. -/
theorem coEventGroupSet_waits [DecidableEq Group] {s : Runtime Ctx Event Group Task} {g : Group}
    {m : BitVec 32}
    (h : coEventGroupTest ((s.group g).withMask ((s.group g).mask ||| m)) (s.group g).waitMask
      (s.group g).waitMode = false) :
    coEventGroupSet s g m =
      s.setGroup g ((s.group g).withMask ((s.group g).mask ||| m)) := by
  have hgroup : (s.setGroup g ((s.group g).withMask ((s.group g).mask ||| m))).group g =
      (s.group g).withMask ((s.group g).mask ||| m) := Function.update_self ..
  rw [coEventGroupSet, coEventGroupUpdate, hgroup]
  cases hc : ((s.group g).withMask ((s.group g).mask ||| m)).waitCtx with
  | none => rfl
  | some c => exact if_neg (Bool.not_eq_true _ ▸ h)

/-- Setting bits that meet it: the waiter is queued and the group left without one. -/
theorem coEventGroupSet_wakes [DecidableEq Group] {s : Runtime Ctx Event Group Task} {g : Group}
    {m : BitVec 32} {c : Ctx} (hc : (s.group g).waitCtx = some c)
    (h : coEventGroupTest ((s.group g).withMask ((s.group g).mask ||| m)) (s.group g).waitMask
      (s.group g).waitMode = true) :
    coEventGroupSet s g m = (coFnPushResume s c).setGroup g
      ((s.group g).withMask ((s.group g).mask ||| m)).released := by
  have hgroup : (s.setGroup g ((s.group g).withMask ((s.group g).mask ||| m))).group g =
      (s.group g).withMask ((s.group g).mask ||| m) := Function.update_self ..
  have hctx : ((s.group g).withMask ((s.group g).mask ||| m)).waitCtx = some c := hc
  rw [coEventGroupSet, coEventGroupUpdate, hgroup, hctx]
  refine (if_pos h).trans ?_
  simp only [Runtime.setGroup, coFnPushResume, Function.update_idem]

/-- Setting bits queues the waiter or nobody and leaves the rest as it is. -/
theorem coEventGroupSet_cases [DecidableEq Group] (s : Runtime Ctx Event Group Task) (g : Group)
    (m : BitVec 32) : ∃ x l, x.mask = (s.group g).mask ||| m ∧ x.waitMask = (s.group g).waitMask ∧
      x.waitMode = (s.group g).waitMode ∧
      coEventGroupSet s g m = (s.resumeAll s.lists l).setGroup g x := by
  cases hc : (s.group g).waitCtx with
  | none =>
    refine ⟨(s.group g).withMask ((s.group g).mask ||| m), [], rfl, rfl, rfl, ?_⟩
    rw [coEventGroupSet_alone hc, Runtime.resumeAll, List.map_nil, List.append_nil]
  | some c =>
    cases htest : coEventGroupTest ((s.group g).withMask ((s.group g).mask ||| m))
        (s.group g).waitMask (s.group g).waitMode with
    | true =>
      exact ⟨((s.group g).withMask ((s.group g).mask ||| m)).released, [c], rfl, rfl, rfl,
        coEventGroupSet_wakes hc htest⟩
    | false =>
      refine ⟨(s.group g).withMask ((s.group g).mask ||| m), [], rfl, rfl, rfl, ?_⟩
      rw [coEventGroupSet_waits htest, Runtime.resumeAll, List.map_nil, List.append_nil]

@[simp] theorem coEventGroupSet_fn [DecidableEq Group] (s : Runtime Ctx Event Group Task)
    (g : Group) (m : BitVec 32) : (coEventGroupSet s g m).fn = s.fn := by
  obtain ⟨x, l, -, -, -, heq⟩ := coEventGroupSet_cases s g m
  rw [heq]
  rfl

theorem coReturn_eq [DecidableEq Ctx] (s : Runtime Ctx Event Group Task) (c : Ctx) :
    coReturn s c = { s with
      resumePoint := Function.update s.resumePoint c .done
      returns := Function.update s.returns c (s.returns c ++ [s.doneTask c])
      queue := s.queue ++ (s.doneTask c).toList.map .task } := by
  rw [coReturn]
  cases s.doneTask c with
  | none => simp [pushDoneTask, coFnSuspend]
  | some t => rfl

theorem recordResume_eq [DecidableEq Ctx] [DecidableEq Event] (s : Runtime Ctx Event Group Task)
    (c : Ctx) :
    recordResume s c = { s with
      resumes := fun i => s.resumes i ++ if s.waitsOn c = some i then [c] else []
      waitsOn := Function.update s.waitsOn c none } := by
  cases hw : s.waitsOn c with
  | none =>
    have hself : Function.update s.waitsOn c none = s.waitsOn :=
      Function.update_eq_self_iff.mpr hw.symm
    simp [recordResume, hw, hself]
  | some e =>
    have hresumes : Function.update s.resumes e (s.resumes e ++ [c]) =
        fun i => s.resumes i ++ if some e = some i then [c] else [] := by
      funext i
      by_cases hi : i = e
      · subst hi
        simp
      · simp [hi, Ne.symm hi]
    simp [recordResume, hw, hresumes]

/-! ## The loops on lists

With the pointers holding lists, `co_event_callback` queues the contexts of one list
and `co_event_wait` appends to it. -/

section
variable [DecidableEq Ctx] [DecidableEq Event] {W : Event → List Ctx}

theorem coEventCallbackLoop_holds (n : Nat) (s : Runtime Ctx Event Group Task) (e : Event)
    (h : Holds W s.lists) (hn : (W e).length < n) :
    ∃ lists, coEventCallbackLoop n s e = .ok (s.resumeAll lists (W e)) ∧
      Holds (Function.update W e []) lists := by
  induction n generalizing W s with
  | zero => cases hn
  | succ n ih =>
    cases hw : W e with
    | nil =>
      refine ⟨s.lists, ?_, ?_⟩
      · rw [coEventCallbackLoop, listPopFront_nil h hw, Runtime.resumeAll, List.map_nil,
          List.append_nil]
      · rwa [← hw, Function.update_eq_self]
    | cons c rest =>
      obtain ⟨lists, hpop, h'⟩ := listPopFront_cons h hw
      have hlen : (Function.update W e rest e).length < n := by
        rw [Function.update_self]
        rw [hw, List.length_cons] at hn
        exact Nat.lt_of_succ_lt_succ hn
      obtain ⟨lists', hloop, hholds⟩ := ih (coFnPushResume { s with lists := lists } c) h' hlen
      refine ⟨lists', ?_, ?_⟩
      · rw [coEventCallbackLoop, hpop]
        refine hloop.trans ?_
        simp only [Runtime.resumeAll, coFnPushResume, Function.update_self, List.map_cons,
          List.append_assoc, List.singleton_append]
      · rwa [Function.update_idem] at hholds

variable [Fintype Ctx]

theorem coEventCallback_holds (s : Runtime Ctx Event Group Task) (e : Event)
    (h : Holds W s.lists) :
    ∃ lists, coEventCallback s e = .ok (s.resumeAll lists (W e)) ∧
      Holds (Function.update W e []) lists :=
  coEventCallbackLoop_holds _ s e h (Nat.lt_succ_of_le (h.nodup e).length_le_card)

/-- A wait on an event that is not done: the context is on its list. -/
theorem coEventWait_holds (s : Runtime Ctx Event Group Task) {e : Event} {c : Ctx}
    (h : Holds W s.lists) (hnot : ∀ i, c ∉ W i) (hdone : s.eventDone e = false) :
    ∃ lists, coEventWait s e c = .ok (recordWait (s.withLists lists) e c) ∧
      Holds (Function.update W e (W e ++ [c])) lists := by
  obtain ⟨lists, happend, hholds⟩ := listAppend_holds e h hnot
  refine ⟨lists, ?_, hholds⟩
  have hnotDone : coEventIsDone (recordWait (s.withLists lists) e c) e = false := hdone
  simp only [coEventWait, happend]
  change (if coEventIsDone (recordWait (s.withLists lists) e c) e = true then _ else _) = _
  rw [hnotDone]
  rfl

/-- A wait on an event that is done: nobody is on its list, and the context is queued. -/
theorem coEventWait_done (s : Runtime Ctx Event Group Task) {e : Event} {c : Ctx}
    (h : Holds W s.lists) (hnot : ∀ i, c ∉ W i) (hdone : s.eventDone e = true) (hw : W e = []) :
    ∃ lists, coEventWait s e c =
        .ok (coFnPushResume (recordWait (s.withLists lists) e c) c) ∧ Holds W lists := by
  obtain ⟨lists, happend, hholds⟩ := listAppend_holds e h hnot
  obtain ⟨lists', hclear, hholds'⟩ := listClear_holds e hholds
  rw [Function.update_idem, ← hw, Function.update_eq_self] at hholds'
  refine ⟨lists', ?_, hholds'⟩
  have hisDone : coEventIsDone (recordWait (s.withLists lists) e c) e = true := hdone
  simp only [coEventWait, happend]
  change (if coEventIsDone (recordWait (s.withLists lists) e c) e = true then _ else _) = _
  rw [hisDone]
  change (do let lists ← listClear lists e; _) = _
  rw [hclear]
  rfl

end

end AiDeck.Coroutine
