import AiDeck.Coroutine.WakeUp
import AiDeck.Queues.Async

/-! # The callers of the asynchronous queue

A side waits or does not: while it waits, its coroutine is about to start, on the list
of its event, or resumed by it. What a step does to a side is one of a few changes. -/
namespace AiDeck.Queues
open AiDeck.Lib AiDeck.Coroutine

/-! ## What a side can take -/

/-- The free slots for the producer, the ready elements for the consumer. -/
def Queue.available (q : Queue) : Side → Nat
  | .push => q.capacity - (q.countAcq + q.count + q.countConsume)
  | .pop => q.count

/-- The call a side and its coroutine make. -/
def Side.take : Side → Queue → Except Stop (Address × Queue)
  | .push => fun q => queuePushAcquire q false
  | .pop => queuePopConsume

section
variable {base : Nat} {q : Queue} {d : Side}

theorem take_none (h : q.Consistent base) (hnone : q.available d = 0) :
    d.take q = .ok (0, q) := by
  cases d with
  | push =>
    have hfull : q.countAcq + q.count + q.countConsume = q.capacity := by
      have hbound := h.bound
      simp only [Queue.available] at hnone
      omega
    simp [Side.take, queuePushAcquire, hfull]
  | pop =>
    have hcount : q.count = 0 := hnone
    simp only [Side.take, queuePopConsume, queuePeek, if_pos hcount]
    rfl

theorem take_some (h : q.Consistent base) (hsome : 0 < q.available d) :
    ∃ el q', d.take q = .ok (el, q') ∧ el ≠ 0 ∧ q'.Consistent base ∧
      q'.available d = q.available d - 1 ∧ ∀ e, e ≠ d → q'.available e = q.available e := by
  cases d with
  | push =>
    have hroom : ¬ q.Full := by
      simp only [Queue.available] at hsome
      unfold Queue.Full
      omega
    have hlt : q.endAcq < q.capacity := h.endAcq ▸ Nat.mod_lt _ h.capacity
    refine ⟨q.slot q.endAcq, q.acquired ((q.endAcq + 1) % q.capacity), ?_,
      Queue.slot_ne h.buffer _, h.acquired hroom, ?_, ?_⟩
    · change queuePushAcquire q false = _
      rw [queuePushAcquire]
      refine (if_neg hroom).trans ?_
      rw [queuePushNext, queueGetEl_ok hlt]
      rfl
    · simp only [Queue.available, Queue.acquired]
      omega
    · intro e he
      cases e with
      | push => exact absurd rfl he
      | pop => rfl
  | pop =>
    have hcount : q.count ≠ 0 := Nat.pos_iff_ne_zero.mp hsome
    have hlt : q.start < q.capacity := h.start ▸ Nat.mod_lt _ h.capacity
    have hne := Queue.slot_ne h.buffer q.start
    refine ⟨q.slot q.start, q.consumed, ?_, hne, h.consumed hcount, rfl, ?_⟩
    · rw [Side.take, queuePopConsume, queuePeek, if_neg hcount, queueGetEl_ok hlt]
      exact if_pos hne
    · intro e he
      cases e with
      | push =>
        simp only [Queue.available, Queue.consumed]
        omega
      | pop => exact absurd rfl he

end

/-! ## A side and its changes -/

/-- The callback of `e` is pending. -/
def isCallbackOf {Task : Type} (e : Side) : Pending Side Side Task → Bool
  | .task (.event i) => i = e
  | _ => false

/-- What a side sees of a state: whether a call of it waits, whether its event is done,
how many callbacks of the event are pending, and what there is to take. -/
structure SideView where
  waiting : Bool
  signalled : Bool
  pending : Nat
  available : Nat

variable {Task : Type}

def AsyncSystem.view (s : AsyncSystem Task) (d : Side) : SideView :=
  { waiting := s.el d ≠ 0, signalled := s.rt.eventDone d
    pending := s.rt.queue.countP (isCallbackOf d), available := s.q.available d }

/-- The side whose call an action is. -/
def AsyncAction.caller : AsyncAction Task → Option Side
  | acquire _ _ => some .push
  | consume _ _ => some .pop
  | _ => none

/-- The changes an action makes to a side. -/
inductive Effect (s : AsyncSystem Task) (a : AsyncAction Task) (d : Side) (v : SideView) :
    SideView → Prop
  | keep : Effect s a d v v
  | take (ha : a.caller = some d) (hsome : 0 < v.available) :
    Effect s a d v { v with available := v.available - 1 }
  | wait (hrest : v.waiting = false) (hnone : v.available = 0) :
    Effect s a d v { v with waiting := true, signalled := false }
  | free : Effect s a d v { v with pending := v.pending + 1, available := v.available + 1 }
  | discard {el} (ha : a = .discard el) (hd : d = .push) :
    Effect s a d v { v with available := v.available + 1 }
  | callback {rest} (ha : a = .schedule) (hq : s.rt.queue = .task (.event d) :: rest) :
    Effect s a d v { v with signalled := true, pending := v.pending - 1 }
  | finish (hwaiting : v.waiting = true) (hsignalled : v.signalled = true)
      (hsome : 0 < v.available) :
    Effect s a d v { v with waiting := false, available := v.available - 1 }

/-! ## The invariant -/

/-- The tasks of other code in a queue. -/
def Pending.other? : Pending Side Side Task → Option Task
  | .task (.other t) => some t
  | _ => none

/-- Where the coroutine of a waiting side is. -/
inductive Place (home : Side → Home Side Empty) (s : AsyncSystem Task) (d : Side) : Prop
  | starting (hhome : home d = .queued) (hline : s.rt.resumePoint d = .start)
  | listed (hhome : home d = .event d)
  | resumed (hhome : home d = .queued) (hline : s.rt.resumePoint d = .line d.line)
      (hdone : s.rt.eventDone d = true)

/-- Each asynchronous call has completed or is the one that waits. -/
inductive Caller (home : Side → Home Side Empty) (s : AsyncSystem Task) (d : Side) : Prop
  | rest (hhome : home d = .idle) (hel : s.el d = 0)
      (hasked : s.asked d = (s.completed d).map Prod.fst)
  | waits (t : Task) (hel : s.el d ≠ 0) (hdoneTask : s.rt.doneTask d = some (.other t))
      (hfn : s.rt.fn d = d.fn) (hasked : s.asked d = (s.completed d).map Prod.fst ++ [t])
      (hplace : Place home s d)

/-- The `done_task`s of the calls that have completed. -/
def AsyncSystem.doneTasks (s : AsyncSystem Task) : List Task :=
  (s.completed .push ++ s.completed .pop).map Prod.fst

/-- The `done_task`s pushed so far: those that ran and those pending. -/
def AsyncSystem.pushed (s : AsyncSystem Task) : List Task :=
  s.ran ++ s.rt.queue.filterMap Pending.other?

structure AsyncInv (home : Side → Home Side Empty) (W : Side → List Side)
    (s : AsyncSystem Task) : Prop where
  rt : Inv home W s.rt
  queue : ∃ base, s.q.Consistent base
  caller : ∀ d, Caller home s d
  values : ∀ d, ∀ x ∈ s.completed d, x.2 ≠ 0
  pushed : s.pushed.Perm s.doneTasks

/-- Nothing that concerns the calls of `d` has changed. -/
structure SameSide (s t : AsyncSystem Task) (d : Side) : Prop where
  el : t.el d = s.el d
  asked : t.asked d = s.asked d
  completed : t.completed d = s.completed d
  doneTask : t.rt.doneTask d = s.rt.doneTask d
  fn : t.rt.fn d = s.rt.fn d
  resumePoint : t.rt.resumePoint d = s.rt.resumePoint d
  eventDone : t.rt.eventDone d = s.rt.eventDone d

section
variable {s t : AsyncSystem Task} {home home' : Side → Home Side Empty} {W W' : Side → List Side}
  {d : Side}

theorem Caller.congr (h : Caller home s d) (hs : SameSide s t d) (hhome : home' d = home d) :
    Caller home' t d := by
  cases h with
  | rest hh hel hasked =>
    refine .rest (hhome.trans hh) (hs.el.trans hel) ?_
    rw [hs.asked, hs.completed, hasked]
  | waits x hel hdoneTask hfn hasked hplace =>
    refine .waits x ?_ (hs.doneTask.trans hdoneTask) (hs.fn.trans hfn) ?_ ?_
    · rw [hs.el]
      exact hel
    · rw [hs.asked, hs.completed, hasked]
    · cases hplace with
      | starting hh hl => exact .starting (hhome.trans hh) (hs.resumePoint.trans hl)
      | listed hh => exact .listed (hhome.trans hh)
      | resumed hh hl hd =>
        exact .resumed (hhome.trans hh) (hs.resumePoint.trans hl) (hs.eventDone.trans hd)

namespace AsyncInv

/-- The only context on the list of an event is that of its side. -/
theorem listed (h : AsyncInv home W s) {e c : Side} (hc : c ∈ W e) : c = e := by
  have hhome := (h.rt.waiting e c).mp hc
  cases h.caller c with
  | rest hh _ _ =>
    rw [hh] at hhome
    cases hhome
  | waits _ _ _ _ _ hplace =>
    cases hplace with
    | starting hh _ =>
      rw [hh] at hhome
      cases hhome
    | listed hh =>
      rw [hh] at hhome
      exact Home.event.inj hhome
    | resumed hh _ _ =>
      rw [hh] at hhome
      cases hhome

/-- A side that does not wait. -/
theorem rest (h : AsyncInv home W s) (hel : s.el d = 0) :
    home d = .idle ∧ s.asked d = (s.completed d).map Prod.fst := by
  cases h.caller d with
  | rest hh _ hasked => exact ⟨hh, hasked⟩
  | waits _ hne => exact absurd hel hne

/-- A pending context is that of a waiting side. -/
theorem pending_waits (h : AsyncInv home W s) (hqueued : home d = .queued) :
    ∃ x, s.el d ≠ 0 ∧ s.rt.doneTask d = some (.other x) ∧ s.rt.fn d = d.fn ∧
      s.asked d = (s.completed d).map Prod.fst ++ [x] ∧
      (s.rt.resumePoint d = .start ∨
        s.rt.resumePoint d = .line d.line ∧ s.rt.eventDone d = true) := by
  cases h.caller d with
  | rest hh _ _ =>
    rw [hqueued] at hh
    cases hh
  | waits x hel hdoneTask hfn hasked hplace =>
    refine ⟨x, hel, hdoneTask, hfn, hasked, ?_⟩
    cases hplace with
    | starting _ hl => exact .inl hl
    | listed hh =>
      rw [hqueued] at hh
      cases hh
    | resumed _ hl hd => exact .inr ⟨hl, hd⟩

/-- Only the side `d` changes. -/
theorem move (h : AsyncInv home W s) (hrt : Inv home' W' t.rt) (hqueue : ∃ base, t.q.Consistent base)
    (hother : ∀ e, e ≠ d → SameSide s t e ∧ home' e = home e) (hcaller : Caller home' t d)
    (hvalues : ∀ x ∈ t.completed d, x.2 ≠ 0) (hpushed : t.pushed.Perm t.doneTasks) :
    AsyncInv home' W' t := by
  refine ⟨hrt, hqueue, ?_, ?_, hpushed⟩
  · intro e
    by_cases he : e = d
    · exact he ▸ hcaller
    · obtain ⟨hs, hh⟩ := hother e he
      exact (h.caller e).congr hs hh
  · intro e
    by_cases he : e = d
    · exact he ▸ hvalues
    · rw [(hother e he).1.completed]
      exact h.values e

/-- No side changes. -/
theorem still (h : AsyncInv home W s) (hrt : Inv home W t.rt) (hqueue : ∃ base, t.q.Consistent base)
    (hsame : ∀ e, SameSide s t e) (hpushed : t.pushed = s.pushed) : AsyncInv home W t := by
  have hdone : t.doneTasks = s.doneTasks := by
    rw [AsyncSystem.doneTasks, (hsame .push).completed, (hsame .pop).completed]
    rfl
  refine h.move (d := .push) hrt hqueue (fun e _ => ⟨hsame e, rfl⟩)
    ((h.caller .push).congr (hsame .push) rfl) ?_ ?_
  · rw [(hsame .push).completed]
    exact h.values .push
  · rw [hpushed, hdone]
    exact h.pushed

end AsyncInv

end

/-! ## Calls -/

section
variable {s : AsyncSystem Task} {home : Side → Home Side Empty} {W : Side → List Side}
  {d e : Side} {a : AsyncAction Task}

theorem doneTasks_complete (s : AsyncSystem Task) (d : Side) (t : Task) (el : Address) :
    (s.complete d (some t) el).doneTasks.Perm (s.doneTasks ++ [t]) := by
  cases d with
  | push =>
    have hperm : ([(t, s.vars el)] ++ s.completed .pop).Perm (s.completed .pop ++ [(t, s.vars el)]) :=
      List.perm_append_comm
    have happend := (hperm.append_left (s.completed .push)).map Prod.fst
    simpa [AsyncSystem.doneTasks, AsyncSystem.complete] using happend
  | pop => simp [AsyncSystem.doneTasks, AsyncSystem.complete]

theorem pushed_push (s : AsyncSystem Task) (t : Task) :
    (s.withRt (piTaskPush s.rt (.other t))).pushed = s.pushed ++ [t] := by
  simp [AsyncSystem.pushed, AsyncSystem.withRt, piTaskPush, Pending.other?]

theorem countP_pushOther (rt : Runtime Side Side Empty Task) (t : Task) :
    (piTaskPush rt (.other t)).queue.countP (isCallbackOf e) = rt.queue.countP (isCallbackOf e) := by
  simp [piTaskPush, isCallbackOf]

theorem countP_pushResume (rt : Runtime Side Side Empty Task) :
    (coFnPushResume rt d).queue.countP (isCallbackOf e) = rt.queue.countP (isCallbackOf e) := by
  simp [coFnPushResume, isCallbackOf]

theorem countP_pushEvent (rt : Runtime Side Side Empty Task) :
    (coEventPush rt d).queue.countP (isCallbackOf e) =
      rt.queue.countP (isCallbackOf e) + if d = e then 1 else 0 := by
  by_cases hd : d = e <;> simp [coEventPush, piTaskPush, isCallbackOf, hd]

/-- A call that gets its element at once. -/
theorem AsyncInv.taken (h : AsyncInv home W s) {el front : Address} {q : Queue}
    (hq : ∃ base, q.Consistent base) (hfront : front ≠ 0) {doneTask : Option Task}
    (hfree : doneTask.isSome → s.el d = 0) :
    AsyncInv home W ((s.stored el (front, q)).taken d el doneTask) := by
  cases doneTask with
  | none => exact h.still h.rt hq (fun _ => ⟨rfl, rfl, rfl, rfl, rfl, rfl, rfl⟩) rfl
  | some t =>
    obtain ⟨hhome, hasked⟩ := h.rest (hfree rfl)
    have hcompleted : ((s.stored el (front, q)).taken d el (some t)).completed d =
        s.completed d ++ [(t, front)] := by
      simp [AsyncSystem.taken, AsyncSystem.withRt, AsyncSystem.complete, AsyncSystem.ask,
        AsyncSystem.stored]
    refine h.move (d := d) (h.rt.push _) hq ?_ (.rest hhome (hfree rfl) ?_) ?_ ?_
    · intro i hi
      refine ⟨⟨rfl, ?_, ?_, rfl, rfl, rfl, rfl⟩, rfl⟩
      · exact Function.update_of_ne hi _ _
      · exact Function.update_of_ne hi _ _
    · rw [hcompleted, List.map_append, ← hasked]
      exact Function.update_self ..
    · intro x hx
      rw [hcompleted] at hx
      rcases List.mem_append.mp hx with hx | hx
      · exact h.values d x hx
      · rw [List.mem_singleton.mp hx]
        exact hfront
    · have hpush := pushed_push ((s.stored el (front, q)).ask d t) t
      have hperm := doneTasks_complete ((s.stored el (front, q)).ask d t) d t el
      exact (hpush ▸ h.pushed.append_right [t]).trans hperm.symm

theorem view_taken (s : AsyncSystem Task) (d e : Side) (el front : Address) (q : Queue)
    (doneTask : Option Task) :
    ((s.stored el (front, q)).taken d el doneTask).view e =
      { s.view e with available := q.available e } := by
  cases doneTask with
  | none => rfl
  | some t =>
    have hcount := countP_pushOther (e := e) s.rt t
    simp only [AsyncSystem.view, AsyncSystem.taken, AsyncSystem.withRt, AsyncSystem.complete,
      AsyncSystem.ask, AsyncSystem.stored, hcount]
    rfl

/-- The state of a side that begins to wait. -/
def AsyncSystem.waiting (s : AsyncSystem Task) (d : Side) (el : Address) (t : Task) :
    AsyncSystem Task :=
  (((s.stored el (0, s.q)).setEl d el).ask d t).withRt
    (coFnPushResume (coFnInit (coEventInit s.rt d) d d.fn (some (.other t))) d)

/-- A call that begins to wait. -/
theorem AsyncInv.wait (h : AsyncInv home W s) {el : Address} (hel : el ≠ 0) (t : Task)
    (hfree : s.el d = 0) :
    coFnPushStart (coEventInit s.rt d) d d.fn (some (.other t)) =
        .ok (coFnPushResume (coFnInit (coEventInit s.rt d) d d.fn (some (.other t))) d) ∧
      AsyncInv (Function.update home d .queued) W (s.waiting d el t) := by
  obtain ⟨hhome, hasked⟩ := h.rest hfree
  have hempty : W d = [] := by
    refine List.eq_nil_iff_forall_not_mem.mpr fun c hc => ?_
    have hlisted := (h.rt.waiting d c).mp hc
    rw [h.listed hc, hhome] at hlisted
    cases hlisted
  have hinit := h.rt.eventInit (h.rt.holds.first_eq_none_iff.mpr hempty)
  obtain ⟨hok, hrt⟩ := hinit.pushStart hhome d.fn (some (.other t))
  refine ⟨hok, h.move (d := d) hrt h.queue ?_ (.waits t ?_ ?_ ?_ ?_ (.starting ?_ ?_)) (h.values d) ?_⟩
  · intro i hi
    refine ⟨⟨?_, ?_, rfl, ?_, ?_, ?_, ?_⟩, Function.update_of_ne hi _ _⟩
    all_goals exact Function.update_of_ne hi _ _
  · change Function.update s.el d el d ≠ 0
    rw [Function.update_self]
    exact hel
  · exact Function.update_self ..
  · exact Function.update_self ..
  · rw [show (s.waiting d el t).completed = s.completed from rfl, ← hasked]
    exact Function.update_self ..
  · exact Function.update_self ..
  · exact Function.update_self ..
  · have hpushed : (s.waiting d el t).pushed = s.pushed := by
      simp [AsyncSystem.pushed, AsyncSystem.waiting, AsyncSystem.withRt, coFnPushResume,
        Pending.other?, AsyncSystem.ask, AsyncSystem.setEl, AsyncSystem.stored, coFnInit,
        coEventInit]
    exact hpushed ▸ h.pushed

theorem view_waiting_self (s : AsyncSystem Task) (d : Side) {el : Address} (hel : el ≠ 0)
    (t : Task) : (s.waiting d el t).view d =
      { s.view d with waiting := true, signalled := false } := by
  have hcount := countP_pushResume (e := d) (d := d)
    (coFnInit (coEventInit s.rt d) d d.fn (some (.other t)))
  simp only [AsyncSystem.view, AsyncSystem.waiting, AsyncSystem.withRt, AsyncSystem.ask,
    AsyncSystem.setEl, AsyncSystem.stored, hcount]
  simp [hel, coFnPushResume, coFnInit, coEventInit]

theorem view_waiting_other (s : AsyncSystem Task) {d e : Side} (he : e ≠ d) (el : Address)
    (t : Task) : (s.waiting d el t).view e = s.view e := by
  have hcount := countP_pushResume (e := e) (d := d)
    (coFnInit (coEventInit s.rt d) d d.fn (some (.other t)))
  simp only [AsyncSystem.view, AsyncSystem.waiting, AsyncSystem.withRt, AsyncSystem.ask,
    AsyncSystem.setEl, AsyncSystem.stored, hcount]
  simp [he, coFnPushResume, coFnInit, coEventInit]

/-- What one action of the queue does, where it does not stop. -/
def AsyncInv.Steps (s : AsyncSystem Task) (a : AsyncAction Task) (t : AsyncSystem Task) : Prop :=
  ∃ home W, AsyncInv home W t ∧ ∀ d, Effect s a d (s.view d) (t.view d)

theorem AsyncInv.asyncTake (h : AsyncInv home W s) (ha : a.caller = some d) (busy : String)
    {el : Address} (hel : el ≠ 0) {doneTask : Option Task} (hfree : doneTask.isSome → s.el d = 0) :
    ∃ t, Queues.asyncTake d d.take busy s el doneTask = .ok t ∧ AsyncInv.Steps s a t := by
  obtain ⟨base, hq⟩ := h.queue
  rcases Nat.eq_zero_or_pos (s.q.available d) with hnone | hsome
  · have htake := take_none hq hnone
    have hstill : Queues.asyncTake d d.take busy s el doneTask =
        asyncWait d busy (s.stored el (0, s.q)) el doneTask := by
      rw [Queues.asyncTake, if_neg hel, htake]
      rfl
    cases doneTask with
    | none =>
      refine ⟨_, hstill, home, W,
        h.still h.rt h.queue (fun _ => ⟨rfl, rfl, rfl, rfl, rfl, rfl, rfl⟩) rfl, fun e => .keep⟩
    | some t =>
      obtain ⟨hok, hinv⟩ := h.wait hel t (hfree rfl)
      refine ⟨s.waiting d el t, ?_, _, W, hinv, ?_⟩
      · rw [hstill, asyncWait]
        refine (if_neg (not_not.mpr (hfree rfl))).trans ?_
        change (do let rt ← coFnPushStart (coEventInit s.rt d) d d.fn (some (.other t)); _) = _
        rw [hok]
        rfl
      · intro e
        by_cases he : e = d
        · subst he
          rw [view_waiting_self s e hel t]
          exact .wait (by simpa [AsyncSystem.view] using hfree rfl) hnone
        · rw [view_waiting_other s he]
          exact .keep
  · obtain ⟨front, q, htake, hfront, hq', hself, hother⟩ := take_some hq hsome
    refine ⟨(s.stored el (front, q)).taken d el doneTask, ?_, home, W,
      h.taken ⟨base, hq'⟩ hfront hfree, ?_⟩
    · rw [Queues.asyncTake, if_neg hel, htake]
      exact if_pos hfront
    · intro e
      rw [view_taken]
      by_cases he : e = d
      · subst he
        rw [hself]
        exact .take ha hsome
      · rw [hother e he]
        exact .keep

/-! ## Elements given back -/

theorem AsyncInv.push (h : AsyncInv home W s) {q : Queue} (hq : ∃ base, q.Consistent base)
    (i : Side) : AsyncInv home W ((s.setQueue q).withRt (coEventPush s.rt i)) := by
  refine h.still (h.rt.push _) hq (fun _ => ⟨rfl, rfl, rfl, rfl, rfl, rfl, rfl⟩) ?_
  simp [AsyncSystem.pushed, AsyncSystem.withRt, AsyncSystem.setQueue, coEventPush, piTaskPush,
    Pending.other?]

theorem view_push (s : AsyncSystem Task) (q : Queue) (i e : Side) :
    ((s.setQueue q).withRt (coEventPush s.rt i)).view e =
      { s.view e with
        pending := (s.view e).pending + if i = e then 1 else 0
        available := q.available e } := by
  have hcount := countP_pushEvent (d := i) (e := e) s.rt
  simp only [AsyncSystem.view, AsyncSystem.withRt, AsyncSystem.setQueue, hcount]
  rfl

theorem AsyncInv.commit (h : AsyncInv home W s) (hcount : s.q.countAcq ≠ 0) :
    ∃ t, queueAsyncPushCommit s (s.q.slot s.q.endReady) = .ok t ∧ AsyncInv.Steps s a t := by
  obtain ⟨base, hq⟩ := h.queue
  refine ⟨(s.setQueue s.q.committed).withRt (coEventPush s.rt queueReady), ?_, home, W,
    h.push ⟨base, hq.committed hcount⟩ queueReady, ?_⟩
  · rw [queueAsyncPushCommit, hq.queuePushCommit_ok hcount]
    rfl
  · intro e
    rw [view_push]
    cases e with
    | push =>
      have hsame : s.q.committed.available .push = (s.view .push).available := by
        simp only [Queue.available, Queue.committed, AsyncSystem.view]
        omega
      rw [hsame]
      exact .keep
    | pop => exact .free

theorem AsyncInv.release (h : AsyncInv home W s) (hcount : s.q.countConsume ≠ 0) :
    ∃ t, queueAsyncPopRelease s (s.q.slot s.q.startConsume) = .ok t ∧ AsyncInv.Steps s a t := by
  obtain ⟨base, hq⟩ := h.queue
  refine ⟨(s.setQueue s.q.released).withRt (coEventPush s.rt queueFree), ?_, home, W,
    h.push ⟨base + 1, hq.released hcount⟩ queueFree, ?_⟩
  · rw [queueAsyncPopRelease, hq.queuePopRelease_ok hcount]
    rfl
  · intro e
    rw [view_push]
    cases e with
    | push =>
      have hmore : s.q.released.available .push = (s.view .push).available + 1 := by
        have hbound := hq.bound
        simp only [Queue.available, Queue.released, AsyncSystem.view]
        omega
      rw [hmore]
      exact .free
    | pop => exact .keep

theorem AsyncInv.discard (h : AsyncInv home W s) (hcount : s.q.countAcq ≠ 0) {el : Address}
    (ha : a = .discard el) :
    ∃ t, queueAsyncPushDiscard s (s.q.slot s.q.prevEndAcq) = .ok t ∧ AsyncInv.Steps s a t := by
  obtain ⟨base, hq⟩ := h.queue
  refine ⟨s.setQueue s.q.discarded, ?_, home, W,
    h.still h.rt ⟨base, hq.discarded hcount⟩ (fun _ => ⟨rfl, rfl, rfl, rfl, rfl, rfl, rfl⟩) rfl, ?_⟩
  · rw [queueAsyncPushDiscard, hq.queuePushDiscard_ok hcount]
    rfl
  · intro e
    have hview : (s.setQueue s.q.discarded).view e =
        { s.view e with available := s.q.discarded.available e } := rfl
    rw [hview]
    cases e with
    | push =>
      have hmore : s.q.discarded.available .push = (s.view .push).available + 1 := by
        have hbound := hq.bound
        simp only [Queue.available, Queue.discarded, AsyncSystem.view]
        omega
      rw [hmore]
      exact .discard ha rfl
    | pop => exact .keep

/-! ## The scheduler -/

variable {rest : List (Pending Side Side Task)}

theorem AsyncInv.other (h : AsyncInv home W s) {t : Task}
    (hqueue : s.rt.queue = .task (.other t) :: rest) :
    AsyncInv.Steps s a ((s.run t).withRt (s.rt.dequeue rest)) := by
  refine ⟨home, W, h.still (h.rt.other hqueue) h.queue
    (fun _ => ⟨rfl, rfl, rfl, rfl, rfl, rfl, rfl⟩) ?_, ?_⟩
  · simp [AsyncSystem.pushed, AsyncSystem.run, AsyncSystem.withRt, Runtime.dequeue, hqueue,
      Pending.other?]
  · intro e
    have hcount : s.rt.queue.countP (isCallbackOf e) = rest.countP (isCallbackOf e) := by
      simp [hqueue, isCallbackOf]
    have hview : ((s.run t).withRt (s.rt.dequeue rest)).view e = s.view e := by
      simp only [AsyncSystem.view, hcount]
      rfl
    rw [hview]
    exact .keep

/-- The callback of its event resumes the coroutine of a side that waits. -/
theorem AsyncInv.caller_callback (h : AsyncInv home W s) (i : Side)
    (rest : List (Pending Side Side Task)) (lists : Lists Side Side) :
    Caller (wake home (W i)) (s.withRt ((s.rt.dequeueEvent i rest).resumeAll lists (W i))) i := by
  have hdone : Function.update s.rt.eventDone i true i = true := Function.update_self ..
  have hqueued : ∀ x, home i = x → x = .queued → wake home (W i) i = .queued := by
    rintro x hx rfl
    by_cases hm : i ∈ W i <;> simp [wake, hm, hx]
  cases h.caller i with
  | rest hh hel hasked =>
    refine .rest ?_ hel hasked
    refine (if_neg fun hlisted => ?_).trans hh
    have hhome := (h.rt.waiting i i).mp hlisted
    rw [hh] at hhome
    cases hhome
  | waits x hel hdoneTask hfn hasked hplace =>
    refine .waits x hel hdoneTask hfn hasked ?_
    cases hplace with
    | starting hh hl => exact .starting (hqueued _ hh rfl) hl
    | listed hh =>
      obtain ⟨⟨n, hn, hline⟩, -⟩ : Local s.rt i (.event i : Home Side Empty) :=
        hh ▸ h.rt.fields i
      rw [hfn] at hn
      obtain rfl : n = i.line := List.mem_singleton.mp hn
      exact .resumed (if_pos ((h.rt.waiting i i).mpr hh)) hline hdone
    | resumed hh hl _ => exact .resumed (hqueued _ hh rfl) hl hdone

theorem AsyncInv.callback (h : AsyncInv home W s) {i : Side} (ha : a = .schedule)
    (hqueue : s.rt.queue = .task (.event i) :: rest) :
    ∃ rt, coEventCallback (s.rt.dequeueEvent i rest) i = .ok rt ∧
      AsyncInv.Steps s a (s.withRt rt) := by
  obtain ⟨lists, hok, hrt⟩ := h.rt.callback hqueue
  refine ⟨_, hok, _, _, h.move (d := i) hrt h.queue ?_ ?_ (h.values i) ?_, ?_⟩
  · intro e he
    refine ⟨⟨rfl, rfl, rfl, rfl, rfl, rfl, Function.update_of_ne he _ _⟩, ?_⟩
    exact if_neg fun hlisted => he (h.listed hlisted)
  · exact h.caller_callback i rest lists
  · have hsame : (s.withRt ((s.rt.dequeueEvent i rest).resumeAll lists (W i))).pushed =
        s.pushed := by
      have hnone : ((W i).map Pending.resume).filterMap (@Pending.other? Task) = [] := by
        simp [Pending.other?]
      simp only [AsyncSystem.pushed, AsyncSystem.withRt, Runtime.resumeAll, Runtime.dequeueEvent,
        hqueue, List.filterMap_append, hnone, List.append_nil]
      rfl
    exact hsame ▸ h.pushed
  · intro e
    have hnone : ((W i).map Pending.resume).countP (@isCallbackOf Task e) = 0 := by
      rw [List.countP_map, List.countP_eq_zero]
      intro c _
      simp [isCallbackOf]
    have hview : (s.withRt ((s.rt.dequeueEvent i rest).resumeAll lists (W i))).view e =
        { s.view e with
          signalled := Function.update s.rt.eventDone i true e
          pending := rest.countP (isCallbackOf e) } := by
      simp only [AsyncSystem.view, AsyncSystem.withRt, Runtime.resumeAll, Runtime.dequeueEvent,
        List.countP_append, hnone]
      rfl
    rw [hview]
    by_cases he : e = i
    · subst he
      have hpending : rest.countP (isCallbackOf e) = (s.view e).pending - 1 := by
        simp [AsyncSystem.view, hqueue, isCallbackOf]
      rw [hpending, Function.update_self]
      exact .callback ha hqueue
    · have hpending : rest.countP (isCallbackOf e) = (s.view e).pending := by
        simp [AsyncSystem.view, hqueue, isCallbackOf, Ne.symm he]
      rw [hpending, Function.update_of_ne he]
      exact .keep

/-! ## The waiting coroutines -/

/-- The runtime once the pending context `d` has control. -/
def begunRt (rt : Runtime Side Side Empty Task) (rest : List (Pending Side Side Task)) (d : Side) :
    Runtime Side Side Empty Task :=
  coFnSuspend (recordResume (rt.dequeue rest) d) d .running

theorem begunRt_fields (rt : Runtime Side Side Empty Task) (rest : List (Pending Side Side Task))
    (d : Side) : (begunRt rt rest d).fn = rt.fn ∧ (begunRt rt rest d).doneTask = rt.doneTask ∧
      (begunRt rt rest d).eventDone = rt.eventDone ∧ (begunRt rt rest d).queue = rest ∧
      ∀ e, e ≠ d → (begunRt rt rest d).resumePoint e = rt.resumePoint e := by
  rw [begunRt, recordResume_eq]
  exact ⟨rfl, rfl, rfl, rfl, fun e he => Function.update_of_ne he ..⟩

theorem countP_resume (hqueue : s.rt.queue = .resume d :: rest) :
    rest.countP (isCallbackOf e) = (s.view e).pending := by
  simp [AsyncSystem.view, hqueue, isCallbackOf]

theorem filterMap_resume (hqueue : s.rt.queue = .resume d :: rest) :
    s.pushed = s.ran ++ rest.filterMap Pending.other? := by
  rw [AsyncSystem.pushed, hqueue]
  rfl

/-- The coroutine of a side begins to wait, or goes on at once. -/
theorem AsyncInv.suspended (h : AsyncInv home W s) (hqueue : s.rt.queue = .resume d :: rest)
    {rt : Runtime Side Side Empty Task} {x : Home Side Empty} {W' : Side → List Side}
    {l : List (Pending Side Side Task)}
    (hrt : Inv (Function.update (Function.update home d .running) d x) W' rt)
    (hplace : Place (Function.update (Function.update home d .running) d x) (s.withRt rt) d)
    (hfn : rt.fn = s.rt.fn) (hdoneTask : rt.doneTask = s.rt.doneTask)
    (heventDone : rt.eventDone = s.rt.eventDone) (hl : rt.queue = rest ++ l)
    (hresume : ∀ p ∈ l, p = .resume d)
    (hpoint : ∀ e, e ≠ d → rt.resumePoint e = s.rt.resumePoint e) :
    AsyncInv.Steps s a (s.withRt rt) := by
  have hqueued : home d = .queued := by
    refine (h.rt.queued d).mp ?_
    rw [Runtime.resuming, hqueue]
    exact List.mem_cons_self
  obtain ⟨t, hel, hdt, hfd, hasked, -⟩ := h.pending_waits hqueued
  refine ⟨_, W', h.move (d := d) hrt h.queue ?_ (.waits t hel (hdoneTask ▸ hdt) (hfn ▸ hfd) hasked
    hplace) (h.values d) ?_, ?_⟩
  · intro e he
    refine ⟨⟨rfl, rfl, rfl, congrFun hdoneTask e, congrFun hfn e, hpoint e he,
      congrFun heventDone e⟩, ?_⟩
    rw [Function.update_of_ne he, Function.update_of_ne he]
  · have hnone : l.filterMap (@Pending.other? Task) = [] := by
      refine List.filterMap_eq_nil_iff.mpr fun p hp => ?_
      rw [hresume p hp]
      rfl
    have hsame : (s.withRt rt).pushed = s.pushed := by
      rw [filterMap_resume hqueue, AsyncSystem.pushed]
      change s.ran ++ rt.queue.filterMap Pending.other? = _
      rw [hl, List.filterMap_append, hnone, List.append_nil]
    exact hsame ▸ h.pushed
  · intro e
    have hnone : l.countP (@isCallbackOf Task e) = 0 := by
      refine List.countP_eq_zero.mpr fun p hp => ?_
      rw [hresume p hp]
      simp [isCallbackOf]
    have hview : (s.withRt rt).view e = s.view e := by
      simp only [AsyncSystem.view, AsyncSystem.withRt, hl, List.countP_append, hnone, heventDone]
      have hcount := countP_resume (e := e) hqueue
      simp only [AsyncSystem.view] at hcount
      rw [hcount]
      rfl
    rw [hview]
    exact .keep

/-- What the end of the wait of `d` leaves. -/
structure Finished (s : AsyncSystem Task) (d : Side) (rest : List (Pending Side Side Task))
    (t : Task) (front : Address) (q : Queue) (u : AsyncSystem Task) : Prop where
  q : u.q = q
  el : u.el = Function.update s.el d 0
  asked : u.asked = s.asked
  completed : u.completed = Function.update s.completed d (s.completed d ++ [(t, front)])
  ran : u.ran = s.ran
  doneTask : u.rt.doneTask = s.rt.doneTask
  fn : u.rt.fn = s.rt.fn
  eventDone : u.rt.eventDone = s.rt.eventDone
  resumePoint : ∀ e, e ≠ d → u.rt.resumePoint e = s.rt.resumePoint e
  queue : u.rt.queue = rest ++ [.task (.other t)]

section
variable {t : Task} {front : Address} {q : Queue} {u : AsyncSystem Task}

theorem finish_finished (s : AsyncSystem Task) (rest : List (Pending Side Side Task))
    (hdt : s.rt.doneTask d = some (.other t)) (front : Address) (q : Queue) :
    Finished s d rest t front q
      (((s.withRt (begunRt s.rt rest d)).stored (s.el d) (front, q)).finish d) := by
  obtain ⟨hfn, hdoneTask, heventDone, hrest, hpoint⟩ := begunRt_fields s.rt rest d
  have htask : doneTaskOf (begunRt s.rt rest d) d = some t := by
    rw [doneTaskOf, hdoneTask, hdt]
  have hrt : (((s.withRt (begunRt s.rt rest d)).stored (s.el d) (front, q)).finish d).rt =
      coReturn (begunRt s.rt rest d) d := rfl
  refine ⟨rfl, rfl, rfl, ?_, rfl, ?_, ?_, ?_, ?_, ?_⟩
  · simp [AsyncSystem.finish, AsyncSystem.complete, AsyncSystem.withRt, AsyncSystem.setEl,
      AsyncSystem.stored, htask]
  · rw [hrt, coReturn_eq]
    exact hdoneTask
  · rw [hrt, coReturn_eq]
    exact hfn
  · rw [hrt, coReturn_eq]
    exact heventDone
  · intro e he
    rw [hrt, coReturn_eq]
    exact (Function.update_of_ne he _ _).trans (hpoint e he)
  · rw [hrt, coReturn_eq, hdoneTask, hdt]
    simp [hrest]

namespace Finished

theorem other (h : Finished s d rest t front q u) (he : e ≠ d) : SameSide s u e := by
  refine ⟨?_, ?_, ?_, congrFun h.doneTask e, congrFun h.fn e, h.resumePoint e he,
    congrFun h.eventDone e⟩
  · rw [h.el, Function.update_of_ne he]
  · rw [h.asked]
  · rw [h.completed, Function.update_of_ne he]

/-- The task of the call is pushed. -/
theorem pushed (h : Finished s d rest t front q u) (hqueue : s.rt.queue = .resume d :: rest) :
    u.pushed = s.pushed ++ [t] := by
  rw [filterMap_resume hqueue, AsyncSystem.pushed, h.ran, h.queue, List.filterMap_append,
    List.append_assoc]
  rfl

theorem doneTasks (h : Finished s d rest t front q u) : u.doneTasks.Perm (s.doneTasks ++ [t]) := by
  have hperm := doneTasks_complete (s.stored (s.el d) (front, q)) d t (s.el d)
  have hcompleted : ((s.stored (s.el d) (front, q)).complete d (some t) (s.el d)).completed =
      u.completed := by
    rw [h.completed]
    simp [AsyncSystem.complete, AsyncSystem.stored]
  have hsame : u.doneTasks =
      ((s.stored (s.el d) (front, q)).complete d (some t) (s.el d)).doneTasks := by
    rw [AsyncSystem.doneTasks, AsyncSystem.doneTasks, hcompleted]
  exact hsame ▸ hperm

theorem view (h : Finished s d rest t front q u) (hqueue : s.rt.queue = .resume d :: rest)
    (e : Side) : u.view e =
      { s.view e with
        waiting := Function.update s.el d 0 e ≠ 0, available := q.available e } := by
  have hcount : u.rt.queue.countP (isCallbackOf e) = (s.view e).pending := by
    rw [h.queue, List.countP_append, ← countP_resume (e := e) hqueue]
    simp [isCallbackOf]
  simp only [AsyncSystem.view] at hcount
  simp only [AsyncSystem.view, hcount, h.eventDone, h.q, h.el]

end Finished

end

/-- The coroutine of a side has its element. -/
theorem AsyncInv.finish (h : AsyncInv home W s) (hqueue : s.rt.queue = .resume d :: rest)
    (hdone : s.rt.eventDone d = true) {front : Address} {q : Queue}
    (hq : ∃ base, q.Consistent base) (hfront : front ≠ 0) (hsome : 0 < s.q.available d)
    (hself : q.available d = s.q.available d - 1)
    (hother : ∀ e, e ≠ d → q.available e = s.q.available e) :
    AsyncInv.Steps s a
      (((s.withRt (begunRt s.rt rest d)).stored (s.el d) (front, q)).finish d) := by
  have hqueued : home d = .queued := by
    refine (h.rt.queued d).mp ?_
    rw [Runtime.resuming, hqueue]
    exact List.mem_cons_self
  obtain ⟨t, hel, hdt, hfd, hasked, -⟩ := h.pending_waits hqueued
  have hrt := (h.rt.resume hqueue).ret (Function.update_self ..)
  have hfinished := finish_finished s rest hdt front q
  refine ⟨_, W, h.move (d := d) hrt hq ?_ (.rest ?_ ?_ ?_) ?_ ?_, ?_⟩
  · intro e he
    refine ⟨hfinished.other he, ?_⟩
    rw [Function.update_of_ne he, Function.update_of_ne he]
  · exact Function.update_self ..
  · rw [hfinished.el, Function.update_self]
  · rw [hfinished.asked, hfinished.completed, Function.update_self, List.map_append, hasked]
    rfl
  · intro x hx
    rw [hfinished.completed, Function.update_self] at hx
    rcases List.mem_append.mp hx with hx | hx
    · exact h.values d x hx
    · rw [List.mem_singleton.mp hx]
      exact hfront
  · rw [hfinished.pushed hqueue]
    exact (h.pushed.append_right [t]).trans hfinished.doneTasks.symm
  · intro e
    rw [hfinished.view hqueue e]
    by_cases he : e = d
    · subst he
      rw [hself, Function.update_self]
      exact .finish (by simpa [AsyncSystem.view] using hel) hdone hsome
    · rw [hother e he, Function.update_of_ne he]
      exact .keep

/-- A pending coroutine begins to wait, has its element, or finds nothing to take behind
its wait. -/
theorem AsyncInv.resume (h : AsyncInv home W s) (hqueue : s.rt.queue = .resume d :: rest)
    (message : String) :
    (∃ t, asyncTask d d.take message (s.withRt (s.rt.dequeue rest)) = .ok t ∧
        AsyncInv.Steps s a t) ∨
      (s.el d ≠ 0 ∧ s.rt.eventDone d = true ∧ s.q.available d = 0 ∧
        asyncTask d d.take message (s.withRt (s.rt.dequeue rest)) =
          .error (.assertion message)) := by
  have hqueued : home d = .queued := by
    refine (h.rt.queued d).mp ?_
    rw [Runtime.resuming, hqueue]
    exact List.mem_cons_self
  obtain ⟨t, hel, hdt, hfd, hasked, hpoint⟩ := h.pending_waits hqueued
  obtain ⟨hfn, hdoneTask, heventDone, hrest, hother⟩ := begunRt_fields s.rt rest d
  have hbegin : coFnBegin (s.rt.dequeue rest) d = .ok (s.rt.resumePoint d, begunRt s.rt rest d) :=
    h.rt.begin_ok hqueue
  have hrunning : Inv (Function.update home d .running) W (begunRt s.rt rest d) :=
    h.rt.resume hqueue
  have htask : asyncTask d d.take message (s.withRt (s.rt.dequeue rest)) =
      if s.rt.resumePoint d = .line d.line then
        asyncTaskResumed d d.take message (s.withRt (begunRt s.rt rest d))
      else do
        let rt ← coWait (begunRt s.rt rest d) d d.line d
        return s.withRt rt := by
    rw [asyncTask]
    change (do let begun ← coFnBegin (s.rt.dequeue rest) d; _) = _
    rw [hbegin]
    rfl
  rcases hpoint with hstart | ⟨hline, hdone⟩
  · refine .inl ?_
    have hne : ¬ s.rt.resumePoint d = .line d.line := by simp [hstart]
    have hmem : d.line ∈ ((begunRt s.rt rest d).fn d).lines := by
      rw [hfn, hfd]
      exact List.mem_singleton_self _
    cases hdone : (begunRt s.rt rest d).eventDone d with
    | true =>
      obtain ⟨lists, hok, hinv⟩ := Inv.waitDone hrunning (Function.update_self ..) hmem hdone
      refine ⟨_, htask.trans ((if_neg hne).trans (by rw [hok]; rfl)),
        h.suspended hqueue hinv (.resumed (Function.update_self ..) (Function.update_self ..) ?_)
          hfn hdoneTask heventDone (l := [.resume d]) ?_ (by simp) ?_⟩
      · exact hdone
      · change (begunRt s.rt rest d).queue ++ [.resume d] = _
        rw [hrest]
      · intro e he
        exact (Function.update_of_ne he _ _).trans (hother e he)
    | false =>
      obtain ⟨lists, hok, hinv⟩ := Inv.waitOpen hrunning (Function.update_self ..) hmem hdone
      refine ⟨_, htask.trans ((if_neg hne).trans (by rw [hok]; rfl)),
        h.suspended hqueue hinv (.listed (Function.update_self ..)) hfn hdoneTask heventDone
          (l := []) ?_ (by simp) ?_⟩
      · rw [List.append_nil]
        exact hrest
      · intro e he
        exact (Function.update_of_ne he _ _).trans (hother e he)
  · obtain ⟨base, hq⟩ := h.queue
    have hresumed : asyncTask d d.take message (s.withRt (s.rt.dequeue rest)) = do
        let x ← d.take s.q
        if x.1 = 0 then .error (.assertion message)
        else return ((s.withRt (begunRt s.rt rest d)).stored (s.el d) x).finish d := by
      rw [htask, if_pos hline, asyncTaskResumed]
      exact if_neg hel
    rcases Nat.eq_zero_or_pos (s.q.available d) with hnone | hsome
    · refine .inr ⟨hel, hdone, hnone, ?_⟩
      rw [hresumed, take_none hq hnone]
      rfl
    · obtain ⟨front, q, htake, hfront, hq', hself, hothers⟩ := take_some hq hsome
      refine .inl ⟨_, ?_, h.finish hqueue hdone ⟨base, hq'⟩ hfront hsome hself hothers⟩
      rw [hresumed, htake]
      exact if_neg hfront

/-! ## Every action -/

/-- The assertion of a side's coroutine behind its wait. -/
def Side.message : Side → String
  | push => "queue_free asserted but queue is full\n"
  | pop => "queue_ready asserted but queue is empty\n"

/-- The coroutine of `d` is resumed behind its wait with nothing to take. -/
structure Stale (s : AsyncSystem Task) (d : Side) : Prop where
  waiting : s.el d ≠ 0
  signalled : s.rt.eventDone d = true
  none : s.q.available d = 0

/-- An action that is enabled succeeds, unless it resumes a coroutine that finds nothing. -/
theorem AsyncInv.step (h : AsyncInv home W s) (ha : a.Enabled s) :
    (∃ t, a.run s = .ok t ∧ AsyncInv.Steps s a t) ∨
      ∃ d, Stale s d ∧ a = .schedule ∧ a.run s = .error (.assertion d.message) := by
  cases a with
  | acquire el doneTask => exact .inl (h.asyncTake rfl _ ha.1 ha.2)
  | commit el =>
    obtain ⟨hcount, rfl⟩ := ha
    exact .inl (h.commit hcount)
  | discard el =>
    obtain ⟨hcount, rfl⟩ := ha
    exact .inl (h.discard hcount rfl)
  | consume el doneTask => exact .inl (h.asyncTake rfl _ ha.1 ha.2)
  | release el =>
    obtain ⟨hcount, rfl⟩ := ha
    exact .inl (h.release hcount)
  | schedule =>
    cases hqueue : s.rt.queue with
    | nil =>
      have hne : s.rt.queue.isEmpty = false := ha
      rw [hqueue] at hne
      cases hne
    | cons p rest =>
      cases p with
      | resume d =>
        have hrun : AsyncAction.run s .schedule =
            asyncTask d d.take d.message (s.withRt (s.rt.dequeue rest)) := by
          rw [AsyncAction.run, Queues.schedule, hqueue]
          cases d <;> rfl
        rcases h.resume hqueue d.message with ⟨t, hok, hsteps⟩ | ⟨hel, hdone, hnone, herror⟩
        · exact .inl ⟨t, hrun.trans hok, hsteps⟩
        · exact .inr ⟨d, ⟨hel, hdone, hnone⟩, rfl, hrun.trans herror⟩
      | task x =>
        cases x with
        | event e =>
          obtain ⟨rt, hok, hsteps⟩ := h.callback rfl hqueue
          refine .inl ⟨s.withRt rt, ?_, hsteps⟩
          rw [AsyncAction.run, Queues.schedule, hqueue]
          change (do let rt ← coEventCallback (s.rt.dequeueEvent e rest) e; _) = _
          rw [hok]
          rfl
        | other t =>
          refine .inl ⟨_, ?_, h.other hqueue⟩
          rw [AsyncAction.run, Queues.schedule, hqueue]

/-- What a successful action does. -/
theorem AsyncInv.steps (h : AsyncInv home W s) (ha : a.Enabled s) {t : AsyncSystem Task}
    (hok : a.run s = .ok t) : AsyncInv.Steps s a t := by
  rcases h.step ha with ⟨u, hu, hsteps⟩ | ⟨d, -, -, herror⟩
  · exact Except.ok.inj (hu.symm.trans hok) ▸ hsteps
  · rw [hok] at herror
    cases herror

/-- After `queue_async_init` nobody waits. -/
theorem AsyncSystem.Started.inv {capacity : Nat} (hcapacity : 1 ≤ capacity)
    (h : s.Started capacity) :
    AsyncInv (fun _ => .idle) (fun _ => []) s ∧ ∀ d, (s.view d).waiting = false := by
  obtain ⟨rt, vars, elSize, buffer, hrt, hinit⟩ := h
  obtain ⟨q, hq, hreturn⟩ := bind_ok hinit
  obtain ⟨hbuffer, rfl⟩ := queueInit_eq hq
  obtain rfl := Except.ok.inj hreturn
  have hfree := (hrt.inv.eventInit (hrt.first queueFree)).push (.event queueFree)
  have hready := hfree.eventInit (e := queueReady) (hfree.holds.first_eq_none_iff.mpr rfl)
  refine ⟨⟨hready, ⟨0, .empty hcapacity hbuffer⟩, fun d => .rest rfl rfl rfl,
    fun _ x hx => absurd hx List.not_mem_nil, ?_⟩, fun d => rfl⟩
  simp [AsyncSystem.pushed, AsyncSystem.doneTasks, coEventPush, piTaskPush, coEventInit,
    hrt.queue, Pending.other?]

/-- What holds of the sides at the start and is kept by every effect. -/
theorem reachable_asyncInv {capacity : Nat} (hcapacity : 1 ≤ capacity)
    {cond : AsyncSystem Task → AsyncAction Task → Prop} {P : Side → SideView → Prop}
    (h : (asyncQueue Task capacity cond).Reachable s)
    (hinit : ∀ d v, v.waiting = false → P d v)
    (hstep : ∀ (s : AsyncSystem Task) a d v, (∀ e, P e (s.view e)) → cond s a →
      Effect s a d (s.view d) v → P d v) :
    (∃ home W, AsyncInv home W s) ∧ ∀ d, P d (s.view d) := by
  refine h.invariant
    (P := fun s => (∃ home W, AsyncInv home W s) ∧ ∀ d, P d (s.view d)) ?_ ?_
  · intro s hs
    obtain ⟨hinv, hrest⟩ := hs.inv hcapacity
    exact ⟨⟨_, _, hinv⟩, fun d => hinit d _ (hrest d)⟩
  · rintro s t ⟨⟨home, W, hinv⟩, hP⟩ ⟨a, ha, hcond, hok⟩
    obtain ⟨home', W', hinv', heffect⟩ := hinv.steps ha hok
    exact ⟨⟨home', W', hinv'⟩, fun d => hstep s a d _ hP hcond (heffect d)⟩

end

end AiDeck.Queues
