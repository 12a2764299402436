import AiDeck.Coroutine.WakeUp

/-! # What a program sees of the runtime

Contexts have a home and events a list of waiters; the pointers of the lists and the history are
left out. Each call of the runtime does to this view what the operation of its name says. -/
namespace AiDeck.Coroutine
open AiDeck.Lib

structure Schedule (Ctx Event Group Task : Type) where
  home : Ctx → Home Event Group
  waiting : Event → List Ctx
  fn : Ctx → CoFn
  resumePoint : Ctx → ResumePoint
  doneTask : Ctx → Option (PiTask Event Task)
  eventDone : Event → Bool
  queue : List (Pending Ctx Event Task)

variable {Ctx Event Group Task : Type}

namespace Schedule

def push (v : Schedule Ctx Event Group Task) (t : PiTask Event Task) :
    Schedule Ctx Event Group Task :=
  { v with queue := v.queue ++ [.task t] }

def dequeue (v : Schedule Ctx Event Group Task) (q : List (Pending Ctx Event Task)) :
    Schedule Ctx Event Group Task :=
  { v with queue := q }

section
variable [DecidableEq Event]

def init (v : Schedule Ctx Event Group Task) (e : Event) : Schedule Ctx Event Group Task :=
  { v with eventDone := Function.update v.eventDone e false }

@[simp] theorem init_home (v : Schedule Ctx Event Group Task) (e : Event) :
    (v.init e).home = v.home := rfl

@[simp] theorem init_eventDone (v : Schedule Ctx Event Group Task) (e : Event) :
    (v.init e).eventDone = Function.update v.eventDone e false := rfl

variable [DecidableEq Ctx]

/-- The waiters of an event are queued in order. -/
def callback (v : Schedule Ctx Event Group Task) (e : Event) (q : List (Pending Ctx Event Task)) :
    Schedule Ctx Event Group Task :=
  { v with
    home := wake v.home (v.waiting e)
    waiting := Function.update v.waiting e []
    eventDone := Function.update v.eventDone e true
    queue := q ++ (v.waiting e).map .resume }

/-- `c` waits on `e` at line `n`. -/
def wait (v : Schedule Ctx Event Group Task) (c : Ctx) (n : Nat) (e : Event) :
    Schedule Ctx Event Group Task :=
  if v.eventDone e then
    { v with
      home := Function.update v.home c .queued
      resumePoint := Function.update v.resumePoint c (.line n)
      queue := v.queue ++ [.resume c] }
  else
    { v with
      home := Function.update v.home c (.event e)
      waiting := Function.update v.waiting e (v.waiting e ++ [c])
      resumePoint := Function.update v.resumePoint c (.line n) }

section
variable (v : Schedule Ctx Event Group Task) (c : Ctx) (n : Nat) (e : Event)

@[simp] theorem wait_fn : (v.wait c n e).fn = v.fn := by
  unfold wait
  split <;> rfl

@[simp] theorem wait_doneTask : (v.wait c n e).doneTask = v.doneTask := by
  unfold wait
  split <;> rfl

@[simp] theorem wait_eventDone : (v.wait c n e).eventDone = v.eventDone := by
  unfold wait
  split <;> rfl

@[simp] theorem wait_resumePoint :
    (v.wait c n e).resumePoint = Function.update v.resumePoint c (.line n) := by
  unfold wait
  split <;> rfl

theorem wait_home : (v.wait c n e).home =
    Function.update v.home c (if v.eventDone e then .queued else .event e) := by
  unfold wait
  split <;> rfl

theorem wait_queue : (v.wait c n e).queue =
    v.queue ++ if v.eventDone e then [.resume c] else [] := by
  unfold wait
  split
  · rfl
  · exact (List.append_nil _).symm

end

end

section
variable [DecidableEq Ctx]

def start (v : Schedule Ctx Event Group Task) (c : Ctx) (function : CoFn)
    (doneTask : Option (PiTask Event Task)) : Schedule Ctx Event Group Task :=
  { v with
    home := Function.update v.home c .queued
    fn := Function.update v.fn c function
    resumePoint := Function.update v.resumePoint c .start
    doneTask := Function.update v.doneTask c doneTask
    queue := v.queue ++ [.resume c] }

/-- `c` is taken from the queue and runs. -/
def run (v : Schedule Ctx Event Group Task) (c : Ctx) (q : List (Pending Ctx Event Task)) :
    Schedule Ctx Event Group Task :=
  { v with
    home := Function.update v.home c .running
    resumePoint := Function.update v.resumePoint c .running
    queue := q }

def yield (v : Schedule Ctx Event Group Task) (c : Ctx) (n : Nat) : Schedule Ctx Event Group Task :=
  { v with
    home := Function.update v.home c .queued
    resumePoint := Function.update v.resumePoint c (.line n)
    queue := v.queue ++ [.resume c] }

def ret (v : Schedule Ctx Event Group Task) (c : Ctx) : Schedule Ctx Event Group Task :=
  { v with
    home := Function.update v.home c .idle
    resumePoint := Function.update v.resumePoint c .done
    queue := v.queue ++ (v.doneTask c).toList.map .task }

section
variable (v : Schedule Ctx Event Group Task) (c : Ctx) (n : Nat)
  (q : List (Pending Ctx Event Task))

@[simp] theorem start_home (f : CoFn) (t : Option (PiTask Event Task)) :
    (v.start c f t).home = Function.update v.home c .queued := rfl

@[simp] theorem start_fn (f : CoFn) (t : Option (PiTask Event Task)) :
    (v.start c f t).fn = Function.update v.fn c f := rfl

@[simp] theorem start_resumePoint (f : CoFn) (t : Option (PiTask Event Task)) :
    (v.start c f t).resumePoint = Function.update v.resumePoint c .start := rfl

@[simp] theorem run_home : (v.run c q).home = Function.update v.home c .running := rfl

@[simp] theorem run_resumePoint :
    (v.run c q).resumePoint = Function.update v.resumePoint c .running := rfl

@[simp] theorem run_eventDone : (v.run c q).eventDone = v.eventDone := rfl

@[simp] theorem run_queue : (v.run c q).queue = q := rfl

@[simp] theorem yield_home : (v.yield c n).home = Function.update v.home c .queued := rfl

@[simp] theorem yield_resumePoint :
    (v.yield c n).resumePoint = Function.update v.resumePoint c (.line n) := rfl

@[simp] theorem yield_queue : (v.yield c n).queue = v.queue ++ [.resume c] := rfl

@[simp] theorem ret_home : (v.ret c).home = Function.update v.home c .idle := rfl

@[simp] theorem ret_resumePoint :
    (v.ret c).resumePoint = Function.update v.resumePoint c .done := rfl

@[simp] theorem ret_queue :
    (v.ret c).queue = v.queue ++ (v.doneTask c).toList.map .task := rfl

end

end

end Schedule

section
variable [DecidableEq Event]

/-- The runtime is as the view says. -/
structure Models (v : Schedule Ctx Event Group Task) (s : Runtime Ctx Event Group Task) : Prop where
  inv : Inv v.home v.waiting s
  fn : s.fn = v.fn
  resumePoint : s.resumePoint = v.resumePoint
  doneTask : s.doneTask = v.doneTask
  eventDone : s.eventDone = v.eventDone
  queue : s.queue = v.queue

namespace Models

variable {v : Schedule Ctx Event Group Task} {s : Runtime Ctx Event Group Task} {c : Ctx}
  {e : Event} {q : List (Pending Ctx Event Task)} {n : Nat}

/-! ## What a view says -/

theorem mem_queue (h : Models v s) : .resume c ∈ v.queue ↔ v.home c = .queued := by
  rw [← h.inv.queued c, Runtime.resuming, h.queue, List.mem_filterMap]
  constructor
  · intro hmem
    exact ⟨_, hmem, rfl⟩
  · rintro ⟨p, hp, hc⟩
    cases p with
    | resume d => exact Option.some.inj hc ▸ hp
    | task t => cases hc

theorem mem_waiting (h : Models v s) : c ∈ v.waiting e ↔ v.home c = .event e := h.inv.waiting e c

theorem woken (h : Models v s) (he : v.eventDone e = true) : v.waiting e = [] :=
  h.inv.woken e (h.eventDone ▸ he)

theorem head_queued (h : Models v s) (hq : v.queue = .resume c :: q) : v.home c = .queued :=
  h.mem_queue.mp (hq ▸ List.mem_cons_self)

theorem live_iff (h : Models v s) (c : Ctx) : Live s c ↔ v.home c ≠ .idle := h.inv.live_iff c

/-! ## Calls -/

theorem push (h : Models v s) (t : PiTask Event Task) : Models (v.push t) (piTaskPush s t) :=
  ⟨h.inv.push t, h.fn, h.resumePoint, h.doneTask, h.eventDone, by
    rw [Schedule.push, piTaskPush, h.queue]⟩

theorem other {x : Task} (h : Models v s) (hq : v.queue = .task (.other x) :: q) :
    Models (v.dequeue q) (s.dequeue q) :=
  ⟨h.inv.other (h.queue.trans hq), h.fn, h.resumePoint, h.doneTask, h.eventDone, rfl⟩

theorem eventInit (h : Models v s) (he : v.waiting e = []) :
    Models (v.init e) (coEventInit s e) :=
  ⟨h.inv.eventInit (h.inv.holds.first_eq_none_iff.mpr he), h.fn, h.resumePoint, h.doneTask, by
    rw [Schedule.init, ← h.eventDone]; rfl, h.queue⟩

variable [DecidableEq Ctx]

theorem pushStart (h : Models v s) (hc : v.home c = .idle) (function : CoFn)
    (doneTask : Option (PiTask Event Task)) :
    ∃ t, coFnPushStart s c function doneTask = .ok t ∧ Models (v.start c function doneTask) t := by
  obtain ⟨hok, hinv⟩ := h.inv.pushStart hc function doneTask
  refine ⟨_, hok, hinv, ?_, ?_, ?_, h.eventDone, ?_⟩
  · rw [Schedule.start, ← h.fn]; rfl
  · rw [Schedule.start, ← h.resumePoint]; rfl
  · rw [Schedule.start, ← h.doneTask]; rfl
  · rw [Schedule.start, ← h.queue]; rfl

theorem yield (h : Models v s) (hc : v.home c = .running) (hn : n ∈ (v.fn c).lines) :
    Models (v.yield c n) (coYield s c n) := by
  refine ⟨h.inv.yield hc (h.fn ▸ hn), h.fn, ?_, h.doneTask, h.eventDone, ?_⟩
  · rw [Schedule.yield, ← h.resumePoint]; rfl
  · rw [Schedule.yield, ← h.queue]; rfl

theorem ret (h : Models v s) (hc : v.home c = .running) : Models (v.ret c) (coReturn s c) := by
  refine ⟨h.inv.ret hc, ?_, ?_, ?_, ?_, ?_⟩
  · rw [coReturn_eq]; exact h.fn
  · rw [coReturn_eq, Schedule.ret, ← h.resumePoint]
  · rw [coReturn_eq]; exact h.doneTask
  · rw [coReturn_eq]; exact h.eventDone
  · rw [coReturn_eq, Schedule.ret, ← h.queue, ← h.doneTask]

/-- The switch of a queued context goes on where it was suspended. -/
theorem begin_ok (h : Models v s) (hq : v.queue = .resume c :: q) :
    ∃ t, coFnBegin (s.dequeue q) c = .ok (v.resumePoint c, t) ∧ Models (v.run c q) t := by
  have hq' : s.queue = .resume c :: q := h.queue.trans hq
  refine ⟨_, h.resumePoint ▸ h.inv.begin_ok hq', h.inv.resume hq', ?_, ?_, ?_, ?_, ?_⟩
  · rw [recordResume_eq]; exact h.fn
  · rw [recordResume_eq, Schedule.run, ← h.resumePoint]; rfl
  · rw [recordResume_eq]; exact h.doneTask
  · rw [recordResume_eq]; exact h.eventDone
  · rw [recordResume_eq]; rfl

/-- A callback wakes the contexts that wait on its event. -/
theorem callback_home (h : Models v s) {d : Ctx} (hd : v.home d = .event e) :
    (v.callback e q).home d = .queued := if_pos (h.mem_waiting.mpr hd)

theorem callback_home_of_ne (h : Models v s) {d : Ctx} (hd : v.home d ≠ .event e) :
    (v.callback e q).home d = v.home d := if_neg fun hmem => hd (h.mem_waiting.mp hmem)

variable [Fintype Ctx]

theorem wait (h : Models v s) (hc : v.home c = .running) (hn : n ∈ (v.fn c).lines) :
    ∃ t, coWait s c n e = .ok t ∧ Models (v.wait c n e) t := by
  have hn' : n ∈ (s.fn c).lines := h.fn ▸ hn
  have hpoint : Function.update s.resumePoint c (.line n) =
      Function.update v.resumePoint c (.line n) := by rw [h.resumePoint]
  cases hdone : v.eventDone e with
  | true =>
    obtain ⟨lists, hok, hinv⟩ := h.inv.waitDone hc hn' (h.eventDone ▸ hdone)
    refine ⟨_, hok, ?_⟩
    rw [Schedule.wait, if_pos hdone]
    exact ⟨hinv, h.fn, hpoint, h.doneTask, h.eventDone, congrArg (· ++ _) h.queue⟩
  | false =>
    obtain ⟨lists, hok, hinv⟩ := h.inv.waitOpen hc hn' (h.eventDone ▸ hdone)
    refine ⟨_, hok, ?_⟩
    rw [Schedule.wait, if_neg (Bool.eq_false_iff.mp hdone)]
    exact ⟨hinv, h.fn, hpoint, h.doneTask, h.eventDone, h.queue⟩

theorem callback (h : Models v s) (hq : v.queue = .task (.event e) :: q) :
    ∃ t, coEventCallback (s.dequeueEvent e q) e = .ok t ∧ Models (v.callback e q) t := by
  obtain ⟨lists, hok, hinv⟩ := h.inv.callback (h.queue.trans hq)
  refine ⟨_, hok, hinv, h.fn, h.resumePoint, h.doneTask, ?_, rfl⟩
  rw [Schedule.callback, ← h.eventDone]
  rfl

end Models

/-- Nothing has been started. -/
theorem Runtime.Initial.models [DecidableEq Ctx] {s : Runtime Ctx Event Group Task}
    (h : s.Initial) :
    Models ⟨fun _ => .idle, fun _ => [], s.fn, s.resumePoint, s.doneTask, s.eventDone, []⟩ s :=
  ⟨h.inv, rfl, rfl, rfl, rfl, h.queue⟩

end

end AiDeck.Coroutine
