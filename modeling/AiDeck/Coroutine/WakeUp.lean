import AiDeck.Coroutine.Invariant

/-! # Exactly one wake-up

Every reachable state of the machine has homes, so a suspended context has one source
of resumption, and the order of the waits on an event is the order of their ends. -/
namespace AiDeck.Coroutine
open AiDeck.Lib

section
variable {Ctx Event Group Task : Type}

/-- What can resume a context. -/
inductive Source (Event Group : Type) where
  | event (e : Event)
  | group (g : Group)
  | scheduler

/-- `x` would resume `c`: `c` is on the waiting list of an event, is the `wait_ctx` of a
group, or its `resume_task` is in the queue. -/
def Wakes (s : Runtime Ctx Event Group Task) (c : Ctx) : Source Event Group → Prop
  | .event e => ∃ l, Chain s.lists.next (s.lists.first e) l ∧ c ∈ l
  | .group g => (s.group g).waitCtx = some c
  | .scheduler => c ∈ s.resuming

/-- It has not happened yet and will happen once. -/
def Fires (s : Runtime Ctx Event Group Task) (c : Ctx) : Source Event Group → Prop
  | .event e => s.eventDone e = false ∧
      ∃ l, Chain s.lists.next (s.lists.first e) l ∧ l.Nodup ∧ c ∈ l
  | .group g =>
      coEventGroupTest (s.group g) (s.group g).waitMask (s.group g).waitMode = false
  | .scheduler => s.resuming.Nodup ∧ c ∈ s.resuming

/-- A live context whose coroutine does not have control. -/
def Suspended (s : Runtime Ctx Event Group Task) (c : Ctx) : Prop :=
  Live s c ∧ s.resumePoint c ≠ .running

/-- The home from which a source resumes. -/
def Source.home : Source Event Group → Home Event Group
  | .event e => .event e
  | .group g => .group g
  | .scheduler => .queued

theorem Source.home_inj {x y : Source Event Group} (h : x.home = y.home) : x = y := by
  cases x <;> cases y <;> cases h <;> rfl

/-- A context that is neither idle nor running waits for one source. -/
theorem exists_source {home : Ctx → Home Event Group} {c : Ctx} (hidle : home c ≠ .idle)
    (hrun : home c ≠ .running) : ∃ x : Source Event Group, home c = x.home := by
  cases hc : home c with
  | idle => exact absurd hc hidle
  | running => exact absurd hc hrun
  | queued => exact ⟨.scheduler, rfl⟩
  | event e => exact ⟨.event e, rfl⟩
  | group g => exact ⟨.group g, rfl⟩

end

section
variable {Ctx Event Group Task : Type} [DecidableEq Event] {s : Runtime Ctx Event Group Task}
  {home : Ctx → Home Event Group} {W : Event → List Ctx} {c : Ctx}

namespace Inv

theorem wakes_iff (h : Inv home W s) (x : Source Event Group) : Wakes s c x ↔ home c = x.home := by
  cases x with
  | event e =>
    rw [Source.home, ← h.waiting e c]
    constructor
    · rintro ⟨l, hl, hm⟩
      exact hl.unique (h.holds.chain e) ▸ hm
    · intro hm
      exact ⟨W e, h.holds.chain e, hm⟩
  | group g => exact h.waitCtx g c
  | scheduler => exact h.queued c

theorem fires (h : Inv home W s) {x : Source Event Group} (hx : home c = x.home) :
    Fires s c x := by
  cases x with
  | event e =>
    have hm := (h.waiting e c).mpr hx
    refine ⟨?_, W e, h.holds.chain e, h.holds.nodup e, hm⟩
    rw [← Bool.not_eq_true]
    intro hdone
    rw [h.woken e hdone] at hm
    cases hm
  | group g => exact h.closed g c ((h.waitCtx g c).mpr hx)
  | scheduler => exact ⟨h.once, (h.queued c).mpr hx⟩

/-- Live contexts are those that are not idle. -/
theorem live_iff (h : Inv home W s) (c : Ctx) : Live s c ↔ home c ≠ .idle := by
  have hl := h.fields c
  constructor
  · intro hlive hidle
    rw [hidle] at hl
    obtain ⟨-, -, hs⟩ := hl
    rw [Live, hs] at hlive
    exact Nat.lt_irrefl _ hlive
  · intro hne
    have hout : s.starts c = s.returns c ++ [s.doneTask c] := hl.outstanding hne
    rw [Live, hout, List.length_append]
    exact Nat.lt_succ_self _

/-- Running contexts are those whose coroutine has control. -/
theorem running_iff (h : Inv home W s) (c : Ctx) :
    s.resumePoint c = .running ↔ home c = .running := by
  have hl := h.fields c
  have hline : AtLine s c → s.resumePoint c ≠ .running := by
    rintro ⟨n, -, hn⟩ hr
    rw [hn] at hr
    cases hr
  constructor
  · intro hr
    cases hc : home c with
    | idle =>
      rw [hc] at hl
      rcases hl.1 with hp | hp <;> rw [hp] at hr <;> cases hr
    | running => rfl
    | queued =>
      rw [hc] at hl
      rcases hl.1 with hp | hp
      · rw [hp] at hr; cases hr
      · exact absurd hr (hline hp)
    | event e => rw [hc] at hl; exact absurd hr (hline hl.1)
    | group g => rw [hc] at hl; exact absurd hr (hline hl.1)
  · intro hc
    rw [hc] at hl
    exact hl.1

end Inv

theorem Runtime.Initial.inv (h : s.Initial) : Inv (fun _ => Home.idle) (fun _ => []) s := by
  have hresuming : s.resuming = [] := by rw [Runtime.resuming, h.queue]; rfl
  refine ⟨⟨fun e => ?_, fun _ => List.nodup_nil, by simp, fun c _ => h.next c⟩, ?_, ?_, ?_, ?_, ?_,
    fun _ _ => rfl, ?_, ?_⟩
  · rw [h.first e]; exact .nil
  · simp
  · rw [hresuming]; exact List.nodup_nil
  · intro c; simp [hresuming]
  · intro g c; simp [h.waitCtx g]
  · intro g c hc; rw [h.waitCtx g] at hc; cases hc
  · intro c
    exact ⟨Or.inl (h.resumePoint c), h.waitsOn c, (h.starts c).trans (h.returns c).symm⟩
  · intro e
    rw [h.waits e, h.resumes e, pendingOn, hresuming]
    rfl

end

section
variable {Ctx Event Group Task : Type} [DecidableEq Ctx] [DecidableEq Event] [Fintype Ctx]
  {s : Runtime Ctx Event Group Task}

/-- What the runtime guarantees in a state. -/
structure WakeUp (s : Runtime Ctx Event Group Task) : Prop where
  /-- A suspended context has one source of resumption. -/
  source : ∀ c, Suspended s c → ∃ x, Fires s c x ∧ ∀ y, Wakes s c y ↔ y = x
  /-- No context that was not started, or has returned, has any. -/
  quiet : ∀ c, ¬ Live s c → ∀ y, ¬ Wakes s c y
  /-- The `switch` of a pending context finds a `case` of its function. -/
  switch : ∀ c q, s.queue = .resume c :: q → ∃ p t, coFnBegin (s.dequeue q) c = .ok (p, t)
  /-- The callback of a pending event ends. -/
  callback : ∀ e q, s.queue = .task (.event e) :: q →
    ∃ t, coEventCallback (s.dequeueEvent e q) e = .ok t
  /-- So does a wait on an event. -/
  wait : ∀ c n e, s.resumePoint c = .running → ∃ t, coWait s c n e = .ok t
  /-- The waits on an event end in their order: those on the list come after those whose
  resumes are pending, and nobody else is missing. -/
  order : ∀ e, ∃ l, Chain s.lists.next (s.lists.first e) l ∧
    s.waits e = s.resumes e ++ pendingOn s e ++ l
  /-- The returns of a context handed on the `done_task`s of its starts, each once. -/
  doneTasks : ∀ c, (¬ Live s c ∧ s.starts c = s.returns c) ∨
    (Live s c ∧ s.starts c = s.returns c ++ [s.doneTask c])

theorem Inv.wakeUp {home : Ctx → Home Event Group} {W : Event → List Ctx} (h : Inv home W s) :
    WakeUp s where
  source c hc := by
    obtain ⟨hlive, hrun⟩ := hc
    obtain ⟨x, hx⟩ := exists_source ((h.live_iff c).mp hlive) fun hr =>
      hrun ((h.running_iff c).mpr hr)
    refine ⟨x, h.fires hx, fun y => ?_⟩
    rw [h.wakes_iff, hx]
    exact ⟨fun he => (Source.home_inj he).symm, fun he => he ▸ rfl⟩
  quiet c hc y hy := by
    rw [h.wakes_iff] at hy
    refine hc ((h.live_iff c).mpr ?_)
    rw [hy]
    cases y <;> simp [Source.home]
  switch c q hq := ⟨_, _, h.begin_ok hq⟩
  callback e q hq := by
    obtain ⟨_, ht, -⟩ := h.callback hq
    exact ⟨_, ht⟩
  wait c n e hrun := by
    have hfree : ∀ i, c ∉ W i := h.notMem_lists (by
      simp [(h.running_iff c).mp hrun])
    by_cases hdone : s.eventDone e = true
    · obtain ⟨_, hok, -⟩ := coEventWait_done (coFnSuspend s c (.line n)) h.holds hfree hdone
        (h.woken e hdone)
      exact ⟨_, hok⟩
    · obtain ⟨_, hok, -⟩ := coEventWait_holds (coFnSuspend s c (.line n)) h.holds hfree
        (Bool.not_eq_true _ ▸ hdone)
      exact ⟨_, hok⟩
  order e := ⟨W e, h.holds.chain e, h.order e⟩
  doneTasks c := by
    by_cases hlive : Live s c
    · refine Or.inr ⟨hlive, ?_⟩
      exact (h.fields c).outstanding ((h.live_iff c).mp hlive)
    · refine Or.inl ⟨hlive, ?_⟩
      have hidle : home c = .idle := by
        by_contra hne
        exact hlive ((h.live_iff c).mpr hne)
      have hl := h.fields c
      rw [hidle] at hl
      exact hl.2.2

/-! ## Runs -/

variable [DecidableEq Group]

/-- One call or one task keeps the homes. -/
theorem step_inv {t : Runtime Ctx Event Group Task} {home : Ctx → Home Event Group}
    {W : Event → List Ctx} (h : Inv home W s) (hstep : Step s t) : ∃ home' W', Inv home' W' t := by
  cases hstep with
  | op o ha ho =>
    cases o with
    | pushStart c function doneTask =>
      have hidle : home c = .idle := by
        by_contra hne
        exact ha ((h.live_iff c).mpr hne)
      obtain ⟨hok, hi⟩ := h.pushStart hidle function doneTask
      obtain rfl := Except.ok.inj (hok.symm.trans ho)
      exact ⟨_, _, hi⟩
    | eventInit e =>
      obtain rfl := Except.ok.inj ho
      exact ⟨_, _, h.eventInit ha⟩
    | push x =>
      obtain rfl := Except.ok.inj ho
      exact ⟨_, _, h.push x⟩
    | groupSet g mask =>
      obtain rfl := Except.ok.inj ho
      obtain ⟨home', hi⟩ := h.groupSet g mask
      exact ⟨_, _, hi⟩
    | groupClear g mask =>
      obtain rfl := Except.ok.inj ho
      exact ⟨_, _, h.groupClear g mask⟩
  | callback _ hq hok =>
    obtain ⟨lists, ht, hi⟩ := h.callback hq
    obtain rfl := Except.ok.inj (ht.symm.trans hok)
    exact ⟨_, _, hi⟩
  | other _ hq => exact ⟨_, _, h.other hq⟩
  | resume _ hq hok =>
    obtain ⟨-, rfl⟩ := Prod.mk.inj (Except.ok.inj ((h.begin_ok hq).symm.trans hok))
    exact ⟨_, _, h.resume hq⟩
  | exit x hrun hvalid hx =>
    have hc := (h.running_iff _).mp hrun
    cases x with
    | yield n =>
      obtain rfl := Except.ok.inj hx
      exact ⟨_, _, h.yield hc hvalid⟩
    | wait n e =>
      obtain ⟨t', home', W', ht', hi⟩ := h.wait hc hvalid e
      obtain rfl := Except.ok.inj (ht'.symm.trans hx)
      exact ⟨_, _, hi⟩
    | waitGroup n g mask mode =>
      obtain ⟨home', hi⟩ := h.waitGroup hc hvalid hx
      exact ⟨_, _, hi⟩
    | ret =>
      obtain rfl := Except.ok.inj hx
      exact ⟨_, _, h.ret hc⟩

theorem reachable_inv (h : (machine Ctx Event Group Task).Reachable s) :
    ∃ home W, Inv home W s :=
  h.invariant (P := fun s => ∃ home W, Inv home W s) (fun _ hi => ⟨_, _, hi.inv⟩)
    fun _ _ ⟨_, _, hi⟩ hs => step_inv hi hs

/-- **Exactly one wake-up.** In every reachable state each suspended context has exactly
one source of resumption, no assertion of a `switch` can fail, no waiter is dropped
or overtaken, and every start hands on its `done_task` once. -/
theorem reachable_wakeUp (h : (machine Ctx Event Group Task).Reachable s) : WakeUp s := by
  obtain ⟨home, W, hi⟩ := reachable_inv h
  exact hi.wakeUp

/-- A context that waits on an event. -/
theorem reachable_wakeUp_waiting : ∃ s : Runtime Unit Unit Unit Unit,
    (machine Unit Unit Unit Unit).Reachable s ∧ Suspended s () ∧ WakeUp s := by
  have hzero : (machine Unit Unit Unit Unit).Reachable .zero := .init Runtime.zero_initial
  have hstart := hzero.step (.op (.pushStart () ⟨[7]⟩ none) (Nat.lt_irrefl 0) rfl)
  have hbegin := hstart.step (.resume (c := ()) (q := []) (by unfold Runtime.Idle; decide) rfl rfl)
  have hwait := hbegin.step (.exit (c := ()) (.wait 7 ()) rfl (List.mem_singleton_self 7) rfl)
  exact ⟨_, hwait, ⟨Nat.zero_lt_one, by decide⟩, reachable_wakeUp hwait⟩

end

end AiDeck.Coroutine
