import AiDeck.Coroutine.WakeUp

/-! # A runtime with more events

A runtime over the events `Event` beside one over more events, of which each step of the
first is a step. The further events keep the contexts that wait on an event when
`co_event_init` empties its list. -/
namespace AiDeck.Coroutine
open AiDeck.Lib

variable {Ctx Event Event' Group Task : Type}

section
variable (f : Event → Event')

def PiTask.map : PiTask Event Task → PiTask Event' Task
  | .event e => .event (f e)
  | .other t => .other t

def Pending.map : Pending Ctx Event Task → Pending Ctx Event' Task
  | .resume c => .resume c
  | .task t => .task (t.map f)

/-- The lists of `L`, those of further events left out. -/
structure Lists.Shows (L : Lists Event' Ctx) (l : Lists Event Ctx) : Prop where
  first : ∀ e, L.first (f e) = l.first e
  next : L.next = l.next

/-- The runtime `s` is `r` without the further events and without the history. -/
structure Runtime.Shows (r : Runtime Ctx Event' Group Task) (s : Runtime Ctx Event Group Task) :
    Prop where
  fn : r.fn = s.fn
  resumePoint : r.resumePoint = s.resumePoint
  doneTask : ∀ c, r.doneTask c = (s.doneTask c).map (PiTask.map f)
  lists : r.lists.Shows f s.lists
  eventDone : ∀ e, r.eventDone (f e) = s.eventDone e
  group : r.group = s.group
  queue : r.queue = s.queue.map (Pending.map f)
  starts : ∀ c, (r.starts c).length = (s.starts c).length
  returns : ∀ c, (r.returns c).length = (s.returns c).length

end

/-! ## Lists -/

section
variable {f : Event → Event'} (hf : Function.Injective f)
include hf

theorem update_injective [DecidableEq Event] [DecidableEq Event'] {α : Type} {g : Event' → α}
    {g' : Event → α} (h : ∀ e, g (f e) = g' e) (e : Event) (x : α) (i : Event) :
    Function.update g (f e) x (f i) = Function.update g' e x i := by
  by_cases hi : i = e
  · rw [hi, Function.update_self, Function.update_self]
  · rw [Function.update_of_ne hi, Function.update_of_ne (hf.ne hi), h]

variable [DecidableEq Event] [DecidableEq Event'] [DecidableEq Ctx] {L : Lists Event' Ctx}
  {l : Lists Event Ctx}

omit [DecidableEq Ctx] in
theorem Lists.Shows.listHeadInit (h : L.Shows f l) (e : Event) :
    (listHeadInit L (f e)).Shows f (listHeadInit l e) :=
  ⟨update_injective hf h.first e none, h.next⟩

theorem Lists.Shows.listPopFront (h : L.Shows f l) (e : Event) :
    (listPopFront L (f e)).1 = (listPopFront l e).1 ∧
      (listPopFront L (f e)).2.Shows f (listPopFront l e).2 := by
  rw [AiDeck.Coroutine.listPopFront, AiDeck.Coroutine.listPopFront, h.first e, h.next]
  cases l.first e with
  | none => exact ⟨rfl, h⟩
  | some c => exact ⟨rfl, update_injective hf h.first e _, rfl⟩

theorem Lists.Shows.listClearLoop {n : Nat} (h : L.Shows f l) {e : Event} {l' : Lists Event Ctx}
    (hok : listClearLoop n l e = .ok l') :
    ∃ L', listClearLoop n L (f e) = .ok L' ∧ L'.Shows f l' := by
  induction n generalizing L l with
  | zero => cases hok
  | succ n ih =>
    rw [AiDeck.Coroutine.listClearLoop] at hok ⊢
    rw [h.first e]
    cases hfirst : l.first e with
    | none =>
      rw [hfirst] at hok
      obtain rfl := Except.ok.inj hok
      exact ⟨_, rfl, h.listHeadInit hf e⟩
    | some c =>
      rw [hfirst] at hok
      exact ih (h.listPopFront hf e).2 hok

theorem Lists.Shows.listClear [Fintype Ctx] (h : L.Shows f l) {e : Event} {l' : Lists Event Ctx}
    (hok : listClear l e = .ok l') : ∃ L', listClear L (f e) = .ok L' ∧ L'.Shows f l' :=
  h.listClearLoop hf hok

theorem Lists.Shows.listAppend [Fintype Ctx] (h : L.Shows f l) {e : Event} {c : Ctx}
    {l' : Lists Event Ctx} (hok : listAppend l e c = .ok l') :
    ∃ L', listAppend L (f e) c = .ok L' ∧ L'.Shows f l' := by
  rw [AiDeck.Coroutine.listAppend] at hok ⊢
  rw [h.first e, h.next]
  cases hfirst : l.first e with
  | none =>
    rw [hfirst] at hok
    obtain rfl := Except.ok.inj hok
    exact ⟨_, rfl, update_injective hf h.first e _, rfl⟩
  | some first =>
    rw [hfirst] at hok
    cases hlast : lastNode l.next (Fintype.card Ctx) first with
    | none =>
      simp only [hlast] at hok
      cases hok
    | some last =>
      simp only [hlast] at hok ⊢
      obtain rfl := Except.ok.inj hok
      exact ⟨_, rfl, h.first, rfl⟩

end

/-! ## Calls -/

section
variable (f : Event → Event')

def Op.map : Op Ctx Event Group Task → Op Ctx Event' Group Task
  | .pushStart c function doneTask => .pushStart c function (doneTask.map (PiTask.map f))
  | .eventInit e => .eventInit (f e)
  | .push t => .push (t.map f)
  | .groupSet g mask => .groupSet g mask
  | .groupClear g mask => .groupClear g mask

def Exit.map : Exit Event Group → Exit Event' Group
  | .yield n => .yield n
  | .wait n e => .wait n (f e)
  | .waitGroup n g mask mode => .waitGroup n g mask mode
  | .ret => .ret

end

theorem update_eq {α β : Type} [DecidableEq α] {g g' : α → β} (h : g = g') (a : α) (b : β) :
    Function.update g a b = Function.update g' a b := by rw [h]

namespace Runtime.Shows

variable {f : Event → Event'} {r : Runtime Ctx Event' Group Task} {s : Runtime Ctx Event Group Task}
  {t : Runtime Ctx Event Group Task} {c : Ctx}

/-- A task more in both queues. -/
theorem enqueue (h : r.Shows f s) (p : Pending Ctx Event Task) :
    ({ r with queue := r.queue ++ [p.map f] } : Runtime Ctx Event' Group Task).Shows f
      { s with queue := s.queue ++ [p] } := by
  refine ⟨h.fn, h.resumePoint, h.doneTask, h.lists, h.eventDone, h.group, ?_, h.starts, h.returns⟩
  simp only [h.queue, List.map_append, List.map_singleton]

theorem coFnPushResume (h : r.Shows f s) (c : Ctx) :
    (coFnPushResume r c).Shows f (coFnPushResume s c) := h.enqueue (.resume c)

theorem piTaskPush (h : r.Shows f s) (t : PiTask Event Task) :
    (piTaskPush r (t.map f)).Shows f (piTaskPush s t) := h.enqueue (.task t)

theorem withLists (h : r.Shows f s) {L : Lists Event' Ctx} {l : Lists Event Ctx}
    (hlists : L.Shows f l) : (r.withLists L).Shows f (s.withLists l) :=
  ⟨h.fn, h.resumePoint, h.doneTask, hlists, h.eventDone, h.group, h.queue, h.starts, h.returns⟩

theorem live_iff (h : r.Shows f s) (c : Ctx) : Live r c ↔ Live s c := by
  rw [Live, Live, h.starts, h.returns]

theorem idle (h : r.Shows f s) (hidle : s.Idle) : r.Idle := fun c => h.resumePoint ▸ hidle c

section
variable [DecidableEq Ctx]

theorem coFnSuspend (h : r.Shows f s) (c : Ctx) (p : ResumePoint) :
    (coFnSuspend r c p).Shows f (coFnSuspend s c p) :=
  ⟨h.fn, update_eq h.resumePoint c p, h.doneTask, h.lists, h.eventDone, h.group,
    h.queue, h.starts, h.returns⟩

theorem coFnPushStart (h : r.Shows f s) {function : CoFn} {doneTask : Option (PiTask Event Task)}
    (hok : coFnPushStart s c function doneTask = .ok t) :
    ∃ r', coFnPushStart r c function (doneTask.map (PiTask.map f)) = .ok r' ∧ r'.Shows f t := by
  rw [AiDeck.Coroutine.coFnPushStart] at hok ⊢
  rw [h.resumePoint]
  split at hok
  · cases hok
  · rename_i hpoint
    obtain rfl := Except.ok.inj hok
    have hinit : (coFnInit r c function (doneTask.map (PiTask.map f))).Shows f
        (coFnInit s c function doneTask) := by
      refine ⟨update_eq h.fn c function, update_eq h.resumePoint c .start, ?_,
        ⟨h.lists.first, update_eq h.lists.next c none⟩, h.eventDone, h.group, h.queue, ?_,
        h.returns⟩
      · intro d
        by_cases hd : d = c
        · subst hd
          simp only [coFnInit, Function.update_self]
        · simp only [coFnInit, Function.update_of_ne hd, h.doneTask]
      · intro d
        by_cases hd : d = c
        · subst hd
          simp only [coFnInit, Function.update_self, List.length_append, h.starts,
            List.length_singleton]
        · simp only [coFnInit, Function.update_of_ne hd, h.starts]
    exact ⟨_, if_neg hpoint, hinit.coFnPushResume c⟩

theorem coReturn (h : r.Shows f s) (c : Ctx) : (coReturn r c).Shows f (coReturn s c) := by
  rw [coReturn_eq, coReturn_eq]
  refine ⟨h.fn, update_eq h.resumePoint c .done, h.doneTask, h.lists,
    h.eventDone, h.group, ?_, h.starts, ?_⟩
  · rw [h.queue, h.doneTask, List.map_append]
    cases s.doneTask c <;> rfl
  · intro d
    by_cases hd : d = c
    · subst hd
      simp only [Function.update_self, List.length_append, h.returns, List.length_singleton]
    · simp only [Function.update_of_ne hd, h.returns]

end

section
variable [DecidableEq Group]

theorem setGroup (h : r.Shows f s) (g : Group) (x : EventGroup Ctx) :
    (r.setGroup g x).Shows f (s.setGroup g x) :=
  ⟨h.fn, h.resumePoint, h.doneTask, h.lists, h.eventDone, update_eq h.group g x,
    h.queue, h.starts, h.returns⟩

theorem coEventGroupSet (h : r.Shows f s) (g : Group) (mask : BitVec 32) :
    (coEventGroupSet r g mask).Shows f (coEventGroupSet s g mask) := by
  cases hctx : (s.group g).waitCtx with
  | none =>
    rw [coEventGroupSet_alone hctx, coEventGroupSet_alone (h.group ▸ hctx), h.group]
    exact h.setGroup g _
  | some c =>
    cases htest : coEventGroupTest ((s.group g).withMask ((s.group g).mask ||| mask))
        (s.group g).waitMask (s.group g).waitMode with
    | true =>
      rw [coEventGroupSet_wakes hctx htest,
        coEventGroupSet_wakes (h.group ▸ hctx) (h.group ▸ htest), h.group]
      exact (h.coFnPushResume c).setGroup g _
    | false =>
      rw [coEventGroupSet_waits htest, coEventGroupSet_waits (h.group ▸ htest), h.group]
      exact h.setGroup g _

theorem coEventGroupClear (h : r.Shows f s) (g : Group) (mask : BitVec 32) :
    (coEventGroupClear r g mask).Shows f (coEventGroupClear s g mask) := by
  rw [AiDeck.Coroutine.coEventGroupClear, AiDeck.Coroutine.coEventGroupClear, h.group]
  exact h.setGroup g _

theorem coWaitGroup [DecidableEq Ctx] (h : r.Shows f s) {n : Nat} {g : Group} {mask : BitVec 32}
    {mode : WaitMode} (hok : coWaitGroup s c n g mask mode = .ok t) :
    ∃ r', coWaitGroup r c n g mask mode = .ok r' ∧ r'.Shows f t := by
  have h' := h.coFnSuspend c (.line n)
  rw [AiDeck.Coroutine.coWaitGroup, coEventGroupWait] at hok ⊢
  rw [h'.group]
  split at hok
  · cases hok
  · rename_i halone
    rw [if_neg halone]
    split at hok
    · rename_i htest
      obtain rfl := Except.ok.inj hok
      exact ⟨_, if_pos htest, (h'.setGroup g _).coFnPushResume c⟩
    · rename_i htest
      obtain rfl := Except.ok.inj hok
      exact ⟨_, if_neg htest, h'.setGroup g _⟩

end

section
variable [DecidableEq Event] [DecidableEq Event'] (hf : Function.Injective f)
include hf

theorem coEventInit (h : r.Shows f s) (e : Event) :
    (coEventInit r (f e)).Shows f (coEventInit s e) :=
  ⟨h.fn, h.resumePoint, h.doneTask, h.lists.listHeadInit hf e,
    update_injective hf h.eventDone e false, h.group, h.queue, h.starts, h.returns⟩

theorem dequeueEvent (h : r.Shows f s) (e : Event) {q : List (Pending Ctx Event Task)}
    {q' : List (Pending Ctx Event' Task)} (hq : q' = q.map (Pending.map f)) :
    (r.dequeueEvent (f e) q').Shows f (s.dequeueEvent e q) :=
  ⟨h.fn, h.resumePoint, h.doneTask, h.lists, update_injective hf h.eventDone e true, h.group, hq,
    h.starts, h.returns⟩

omit hf [DecidableEq Event] [DecidableEq Event'] in
theorem dequeue (h : r.Shows f s) {q : List (Pending Ctx Event Task)}
    {q' : List (Pending Ctx Event' Task)} (hq : q' = q.map (Pending.map f)) :
    (r.dequeue q').Shows f (s.dequeue q) :=
  ⟨h.fn, h.resumePoint, h.doneTask, h.lists, h.eventDone, h.group, hq, h.starts, h.returns⟩

variable [DecidableEq Ctx]

theorem coEventCallbackLoop {n : Nat} (h : r.Shows f s) {e : Event}
    (hok : coEventCallbackLoop n s e = .ok t) :
    ∃ r', coEventCallbackLoop n r (f e) = .ok r' ∧ r'.Shows f t := by
  induction n generalizing r s with
  | zero => cases hok
  | succ n ih =>
    obtain ⟨hfront, hrest⟩ := h.lists.listPopFront hf e
    rw [AiDeck.Coroutine.coEventCallbackLoop] at hok ⊢
    generalize listPopFront r.lists (f e) = x at hfront hrest
    generalize listPopFront s.lists e = y at hfront hrest hok
    obtain ⟨front, L⟩ := x
    obtain ⟨front', l⟩ := y
    obtain rfl : front = front' := hfront
    cases front with
    | none =>
      obtain rfl := Except.ok.inj hok
      exact ⟨_, rfl, h.withLists hrest⟩
    | some c => exact ih ((h.withLists hrest).coFnPushResume c) hok

omit hf in
theorem recordResume (h : r.Shows f s) (c : Ctx) : (recordResume r c).Shows f (recordResume s c) := by
  rw [recordResume_eq, recordResume_eq]
  exact ⟨h.fn, h.resumePoint, h.doneTask, h.lists, h.eventDone, h.group, h.queue, h.starts,
    h.returns⟩

omit hf in
theorem coFnBegin (h : r.Shows f s) {p : ResumePoint} (hok : coFnBegin s c = .ok (p, t)) :
    ∃ r', coFnBegin r c = .ok (p, r') ∧ r'.Shows f t := by
  have hrunning := (h.recordResume c).coFnSuspend c .running
  rw [AiDeck.Coroutine.coFnBegin] at hok ⊢
  rw [h.resumePoint, h.fn]
  cases hpoint : s.resumePoint c with
  | start =>
    simp only [hpoint] at hok ⊢
    obtain ⟨rfl, rfl⟩ := Prod.mk.inj (Except.ok.inj hok)
    exact ⟨_, rfl, hrunning⟩
  | running =>
    simp only [hpoint] at hok
    cases hok
  | done =>
    simp only [hpoint] at hok
    cases hok
  | line n =>
    simp only [hpoint] at hok ⊢
    split at hok
    · rename_i hline
      obtain ⟨rfl, rfl⟩ := Prod.mk.inj (Except.ok.inj hok)
      exact ⟨_, if_pos hline, hrunning⟩
    · cases hok

variable [Fintype Ctx]

theorem coWait (h : r.Shows f s) {n : Nat} {e : Event} (hok : coWait s c n e = .ok t) :
    ∃ r', coWait r c n (f e) = .ok r' ∧ r'.Shows f t := by
  have h' := h.coFnSuspend c (.line n)
  rw [AiDeck.Coroutine.coWait, coEventWait] at hok ⊢
  generalize AiDeck.Coroutine.coFnSuspend r c (.line n) = r₁ at h'
  generalize AiDeck.Coroutine.coFnSuspend s c (.line n) = s₁ at h' hok
  obtain ⟨l, happend, hok⟩ := bind_ok hok
  obtain ⟨L, happend', hlists⟩ := h'.lists.listAppend hf happend
  have hrecord : (recordWait (r₁.withLists L) (f e) c).Shows f (recordWait (s₁.withLists l) e c) :=
    ⟨h'.fn, h'.resumePoint, h'.doneTask, hlists, h'.eventDone, h'.group, h'.queue, h'.starts,
      h'.returns⟩
  rw [happend']
  change (if (recordWait (s₁.withLists l) e c).eventDone e = true then _ else _) = _ at hok
  change ∃ r', (if (recordWait (r₁.withLists L) (f e) c).eventDone (f e) = true then _ else _) =
    _ ∧ _
  rw [hrecord.eventDone e]
  split at hok
  · rename_i hdone
    rw [if_pos hdone]
    obtain ⟨l', hclear, hreturn⟩ := bind_ok hok
    obtain ⟨L', hclear', hlists'⟩ := hrecord.lists.listClear hf hclear
    rw [hclear']
    obtain rfl := Except.ok.inj hreturn
    exact ⟨_, rfl, (hrecord.withLists hlists').coFnPushResume c⟩
  · rename_i hdone
    rw [if_neg hdone]
    obtain rfl := Except.ok.inj hok
    exact ⟨_, rfl, hrecord⟩

variable [DecidableEq Group]

/-- **Every step of the runtime is one of the runtime with more events.** -/
theorem step (h : r.Shows f s) (hstep : Step s t) : ∃ r', Step r r' ∧ r'.Shows f t := by
  cases hstep with
  | op o ha ho =>
    cases o with
    | pushStart c function doneTask =>
      obtain ⟨r', hok, hr'⟩ := h.coFnPushStart ho
      exact ⟨r', .op (.pushStart c function (doneTask.map (PiTask.map f)))
        (fun hlive => ha ((h.live_iff c).mp hlive)) hok, hr'⟩
    | eventInit e =>
      obtain rfl := Except.ok.inj ho
      exact ⟨_, .op (.eventInit (f e)) ((h.lists.first e).trans ha) rfl, h.coEventInit hf e⟩
    | push x =>
      obtain rfl := Except.ok.inj ho
      exact ⟨_, .op (.push (x.map f)) trivial rfl, h.piTaskPush x⟩
    | groupSet g mask =>
      obtain rfl := Except.ok.inj ho
      exact ⟨_, .op (.groupSet g mask) trivial rfl, h.coEventGroupSet g mask⟩
    | groupClear g mask =>
      obtain rfl := Except.ok.inj ho
      exact ⟨_, .op (.groupClear g mask) trivial rfl, h.coEventGroupClear g mask⟩
  | @callback _ e q hidle hq hok =>
    have hq' : r.queue = .task (.event (f e)) :: q.map (Pending.map f) := by
      rw [h.queue, hq]
      rfl
    obtain ⟨r', hok', hr'⟩ := (h.dequeueEvent hf e rfl).coEventCallbackLoop hf hok
    exact ⟨r', .callback (h.idle hidle) hq' hok', hr'⟩
  | @other x q hidle hq =>
    have hq' : r.queue = .task (.other x) :: q.map (Pending.map f) := by
      rw [h.queue, hq]
      rfl
    exact ⟨_, .other (h.idle hidle) hq', h.dequeue rfl⟩
  | @resume _ c p q hidle hq hok =>
    have hq' : r.queue = .resume c :: q.map (Pending.map f) := by
      rw [h.queue, hq]
      rfl
    obtain ⟨r', hok', hr'⟩ := (h.dequeue (q := q) rfl).coFnBegin hok
    exact ⟨r', .resume (h.idle hidle) hq' hok', hr'⟩
  | @exit _ c x hrun hvalid hx =>
    have hrun' : r.resumePoint c = .running := h.resumePoint ▸ hrun
    cases x with
    | yield n =>
      obtain rfl := Except.ok.inj hx
      refine ⟨_, .exit (.yield n) hrun' (h.fn ▸ hvalid) rfl, ?_⟩
      exact (h.coFnSuspend c (.line n)).coFnPushResume c
    | wait n e =>
      obtain ⟨r', hok, hr'⟩ := h.coWait hf hx
      exact ⟨r', .exit (.wait n (f e)) hrun' (h.fn ▸ hvalid) hok, hr'⟩
    | waitGroup n g mask mode =>
      obtain ⟨r', hok, hr'⟩ := h.coWaitGroup hx
      exact ⟨r', .exit (.waitGroup n g mask mode) hrun' (h.fn ▸ hvalid) hok, hr'⟩
    | ret =>
      obtain rfl := Except.ok.inj hx
      exact ⟨_, .exit .ret hrun' trivial rfl, h.coReturn c⟩

end

end Runtime.Shows

end AiDeck.Coroutine
