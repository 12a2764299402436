import AiDeck.Coroutine.Ghost

/-! # Starting a context again

The coroutine runtime with calls at any time: `co_fn_push_start` on any context and
`co_event_init` on any event. The guard of `co_fn_push_start` keeps a context from being
started twice, but for the time between a start and its first run. -/
namespace AiDeck.Coroutine
open AiDeck.Lib

variable {Ctx Event Group Task : Type}

/-- `c` was started, and its start has not run. -/
def NotRunYet (s : Runtime Ctx Event Group Task) (c : Ctx) : Prop :=
  Live s c ∧ s.resumePoint c = .start

/-- Any call but a start of a context whose last start has not run. -/
def Op.Patient (s : Runtime Ctx Event Group Task) : Op Ctx Event Group Task → Prop
  | pushStart c _ _ => ¬ NotRunYet s c
  | _ => True

section
variable [DecidableEq Ctx] [DecidableEq Event] [DecidableEq Group] [Fintype Ctx]

/-- A step of the machine, or a call that meets `allowed`. -/
inductive CallStep (allowed : Runtime Ctx Event Group Task → Op Ctx Event Group Task → Prop) :
    Runtime Ctx Event Group Task → Runtime Ctx Event Group Task → Prop
  | machine {s t} (h : Step s t) : CallStep allowed s t
  | call {s t} (o : Op Ctx Event Group Task) (ha : allowed s o) (h : o.run s = .ok t) :
    CallStep allowed s t

/-- The machine with all calls that meet `allowed`. -/
def callMachine (allowed : Runtime Ctx Event Group Task → Op Ctx Event Group Task → Prop) :
    Transition (Runtime Ctx Event Group Task) where
  init := Runtime.Initial
  step := CallStep allowed

end

/-! ## Exchanging events -/

section
variable (σ : Equiv.Perm Event)

def Home.relabel : Home Event Group → Home Event Group
  | .event e => .event (σ.symm e)
  | h => h

/-- The lists, flags and histories of the events exchanged. -/
def Runtime.relabel (r : Runtime Ctx Event Group Task) : Runtime Ctx Event Group Task :=
  { r with
    lists := ⟨fun e => r.lists.first (σ e), r.lists.next⟩
    eventDone := fun e => r.eventDone (σ e)
    waits := fun e => r.waits (σ e)
    resumes := fun e => r.resumes (σ e)
    waitsOn := fun c => (r.waitsOn c).map σ.symm }

variable {σ} {home : Ctx → Home Event Group} {W : Event → List Ctx}
  {r : Runtime Ctx Event Group Task}

theorem Home.relabel_eq_event {h : Home Event Group} {e : Event} :
    h.relabel σ = .event e ↔ h = .event (σ e) := by
  cases h with
  | event e' => simp [relabel, Equiv.symm_apply_eq]
  | _ => simp [relabel]

theorem Home.relabel_eq {h x : Home Event Group} (hx : ∀ e, x ≠ .event e) :
    h.relabel σ = x ↔ h = x := by
  cases h with
  | event e =>
    constructor
    · intro heq
      exact absurd heq.symm (hx _)
    · intro heq
      exact absurd heq.symm (hx _)
  | _ => rfl

theorem Local.relabel {c : Ctx} {x : Home Event Group} (h : Local r c x) :
    Local (r.relabel σ) c (x.relabel σ) := by
  have hnone : r.waitsOn c = none → (r.relabel σ).waitsOn c = none := fun hw => by
    simp only [Runtime.relabel, hw, Option.map_none]
  cases x with
  | idle => exact ⟨h.1, hnone h.2.1, h.2.2⟩
  | running => exact ⟨h.1, hnone h.2.1, h.2.2⟩
  | queued => exact h
  | event e =>
    refine ⟨h.1, ?_, h.2.2⟩
    simp only [Runtime.relabel, h.2.1, Option.map_some]
  | group g => exact ⟨h.1, hnone h.2.1, h.2.2⟩

/-- The invariant does not depend on which event is which. -/
theorem Inv.relabel [DecidableEq Event] (h : Inv home W r) (σ : Equiv.Perm Event) :
    Inv (fun c => (home c).relabel σ) (fun e => W (σ e)) (r.relabel σ) := by
  refine ⟨⟨fun e => h.holds.chain (σ e), fun e => h.holds.nodup (σ e), ?_, ?_⟩, ?_, h.once, ?_, ?_,
    h.closed, fun e => h.woken (σ e), fun c => (h.fields c).relabel, ?_⟩
  · intro e e' c hc hc'
    exact σ.injective (h.holds.disjoint (σ e) (σ e') c hc hc')
  · intro c hfree
    refine h.holds.detached c fun e => ?_
    have hfree' := hfree (σ.symm e)
    rwa [Equiv.apply_symm_apply] at hfree'
  · intro e c
    rw [Home.relabel_eq_event]
    exact h.waiting (σ e) c
  · intro c
    rw [Home.relabel_eq (by simp)]
    exact h.queued c
  · intro g c
    rw [Home.relabel_eq (by simp)]
    exact h.waitCtx g c
  · intro e
    have hpending : pendingOn (r.relabel σ) e = pendingOn r (σ e) := by
      refine List.filter_congr fun c _ => ?_
      simp only [Runtime.relabel, Option.map_eq_some_iff, Equiv.symm_apply_eq, exists_eq_right]
    rw [hpending]
    exact h.order (σ e)

end

/-! ## The runtime with further events -/

/-- The runtime agrees with one with further events, whose data agree with homes. -/
def Sound [DecidableEq Event] (s : Runtime Ctx Event Group Task) : Prop :=
  ∃ (r : Runtime Ctx (Event ⊕ Nat) Group Task) (home : Ctx → Home (Event ⊕ Nat) Group)
    (W : Event ⊕ Nat → List Ctx), r.Shows Sum.inl s ∧ Inv home W r

section
variable [DecidableEq Event] {s t : Runtime Ctx Event Group Task}

/-- Some further event has no waiters. -/
theorem exists_unused [Finite Ctx] {home : Ctx → Home (Event ⊕ Nat) Group}
    {W : Event ⊕ Nat → List Ctx} {r : Runtime Ctx (Event ⊕ Nat) Group Task} (h : Inv home W r) :
    ∃ k, W (.inr k) = [] := by
  by_contra hall
  have hfirst : ∀ k, ∃ c, c ∈ W (.inr k) := fun k =>
    List.exists_mem_of_ne_nil _ fun hnil => hall ⟨k, hnil⟩
  choose waiter hwaiter using hfirst
  refine not_injective_infinite_finite waiter fun k k' heq => ?_
  exact Sum.inr.inj (h.holds.disjoint _ _ _ (hwaiter k) (heq ▸ hwaiter k'))

/-- Only `e` is exchanged with a further event, and then given a value. -/
theorem update_moved {α : Type} {σ : Equiv.Perm (Event ⊕ Nat)} {g : Event ⊕ Nat → α} {g' : Event → α}
    {e : Event} (hσ : ∀ i, i ≠ e → σ (.inl i) = .inl i) (h : ∀ i, g (.inl i) = g' i) (x : α)
    (i : Event) :
    Function.update (fun d => g (σ d)) (.inl e) x (.inl i) = Function.update g' e x i := by
  by_cases hi : i = e
  · rw [hi, Function.update_self, Function.update_self]
  · rw [Function.update_of_ne (Sum.inl_injective.ne hi), Function.update_of_ne hi, hσ i hi, h]

/-- The contexts on the list of an event that is initialised are kept by a further event. -/
theorem Sound.eventInit [Finite Ctx] (h : Sound s) (e : Event) : Sound (coEventInit s e) := by
  obtain ⟨r, home, W, hshows, hinv⟩ := h
  obtain ⟨k, hk⟩ := exists_unused hinv
  generalize hσ : Equiv.swap (Sum.inl e : Event ⊕ Nat) (.inr k) = σ
  have he : σ (.inl e) = .inr k := by rw [← hσ, Equiv.swap_apply_left]
  have hother : ∀ i, i ≠ e → σ (.inl i) = .inl i := fun i hi => by
    rw [← hσ, Equiv.swap_apply_of_ne_of_ne (by simpa using hi) (by simp)]
  have hempty : (r.relabel σ).lists.first (.inl e) = none := by
    change r.lists.first (σ (.inl e)) = none
    rw [he]
    exact hinv.holds.first_eq_none_iff.mpr hk
  refine ⟨coEventInit (r.relabel σ) (.inl e), _, _, ⟨hshows.fn, hshows.resumePoint, hshows.doneTask,
    ⟨?_, hshows.lists.next⟩, ?_, hshows.group, hshows.queue, hshows.starts, hshows.returns⟩,
    (hinv.relabel σ).eventInit hempty⟩
  · exact update_moved hother hshows.lists.first none
  · exact update_moved hother hshows.eventDone false

omit [DecidableEq Event] in
theorem Runtime.Shows.resuming {Event' : Type} {f : Event → Event'}
    {r : Runtime Ctx Event' Group Task} (h : r.Shows f s) : r.resuming = s.resuming := by
  rw [Runtime.resuming, h.queue, List.filterMap_map, Runtime.resuming]
  refine List.filterMap_congr fun p _ => ?_
  cases p <;> rfl

/-- Memory at the start, seen as one with further events. -/
theorem Runtime.Initial.sound (h : s.Initial) : Sound s := by
  let r : Runtime Ctx (Event ⊕ Nat) Group Task :=
    { fn := s.fn, resumePoint := s.resumePoint
      doneTask := fun c => (s.doneTask c).map (PiTask.map Sum.inl)
      lists := ⟨fun _ => none, s.lists.next⟩, eventDone := Sum.elim s.eventDone fun _ => false
      group := s.group, queue := [], starts := fun _ => [], returns := fun _ => []
      waits := fun _ => [], resumes := fun _ => [], waitsOn := fun _ => none }
  have hr : r.Initial := ⟨h.resumePoint, fun _ => rfl, h.next, h.waitCtx, rfl, fun _ => rfl,
    fun _ => rfl, fun _ => rfl, fun _ => rfl, fun _ => rfl⟩
  refine ⟨r, _, _, ⟨rfl, rfl, fun _ => rfl, ⟨fun e => (h.first e).symm, rfl⟩, fun _ => rfl, rfl, ?_,
    fun c => ?_, fun c => ?_⟩, hr.inv⟩
  · rw [h.queue]
    rfl
  · rw [h.starts]
    rfl
  · rw [h.returns]
    rfl

/-! ## The guard of a start -/

theorem Sound.once (h : Sound s) : s.resuming.Nodup := by
  obtain ⟨r, home, W, hshows, hinv⟩ := h
  rw [← hshows.resuming]
  exact hinv.once

theorem Sound.instances (h : Sound s) (c : Ctx) :
    (s.starts c).length ≤ (s.returns c).length + 1 := by
  obtain ⟨r, home, W, hshows, hinv⟩ := h
  rw [← hshows.starts, ← hshows.returns]
  have hl := hinv.fields c
  by_cases hidle : home c = .idle
  · rw [hidle] at hl
    rw [hl.2.2]
    exact Nat.le_succ _
  · have hout : r.starts c = r.returns c ++ [r.doneTask c] := hl.outstanding hidle
    rw [hout, List.length_append, List.length_singleton]

/-- The guard fails for a live context, but for one that has not run yet. -/
theorem Sound.guard (h : Sound s) (c : Ctx) :
    (s.resumePoint c ≠ .start ∧ s.resumePoint c ≠ .done) ↔ Live s c ∧ ¬ NotRunYet s c := by
  obtain ⟨r, home, W, hshows, hinv⟩ := h
  have hlive : Live s c ↔ home c ≠ .idle := (hshows.live_iff c).symm.trans (hinv.live_iff c)
  have hline : AtLine r c → s.resumePoint c ≠ .start ∧ s.resumePoint c ≠ .done := by
    rintro ⟨n, -, hp⟩
    rw [← hshows.resumePoint, hp]
    exact ⟨by simp, by simp⟩
  have hbusy : home c ≠ .idle → s.resumePoint c ≠ .start ∧ s.resumePoint c ≠ .done →
      ((s.resumePoint c ≠ .start ∧ s.resumePoint c ≠ .done) ↔ Live s c ∧ ¬ NotRunYet s c) :=
    fun hne hp => iff_of_true hp ⟨hlive.mpr hne, fun hnot => hp.1 hnot.2⟩
  have hl := hinv.fields c
  cases hc : home c with
  | idle =>
    rw [hc] at hl
    rw [← hshows.resumePoint]
    exact iff_of_false (fun hp => hl.1.elim hp.1 hp.2) fun hp => hlive.mp hp.1 hc
  | running =>
    rw [hc] at hl
    refine hbusy (by simp [hc]) ?_
    rw [← hshows.resumePoint, hl.1]
    exact ⟨by simp, by simp⟩
  | queued =>
    rw [hc] at hl
    rcases hl.1 with hstart | hat
    · rw [hshows.resumePoint] at hstart
      exact iff_of_false (fun hp => hp.1 hstart) fun hp => hp.2 ⟨hp.1, hstart⟩
    · exact hbusy (by simp [hc]) (hline hat)
  | event e => rw [hc] at hl; exact hbusy (by simp [hc]) (hline hl.1)
  | group g => rw [hc] at hl; exact hbusy (by simp [hc]) (hline hl.1)

omit [DecidableEq Event] in
theorem coFnPushStart_error_iff [DecidableEq Ctx] {c : Ctx} {function : CoFn}
    {doneTask : Option (PiTask Event Task)} :
    coFnPushStart s c function doneTask = .error
        (.assertion "Function not correctly initialized or started while already running") ↔
      s.resumePoint c ≠ .start ∧ s.resumePoint c ≠ .done := by
  rw [coFnPushStart]
  split
  · rename_i h
    exact iff_of_true rfl h
  · rename_i h
    exact iff_of_false (by simp) h

/-! ## Runs -/

variable [DecidableEq Ctx] [DecidableEq Group] [Fintype Ctx]

theorem Sound.step (h : Sound s) (hstep : Step s t) : Sound t := by
  obtain ⟨r, home, W, hshows, hinv⟩ := h
  obtain ⟨r', hstep', hshows'⟩ := hshows.step Sum.inl_injective hstep
  obtain ⟨home', W', hinv'⟩ := step_inv hinv hstep'
  exact ⟨r', home', W', hshows', hinv'⟩

/-- Only calls that the guard lets through, and not before the first run. -/
theorem Sound.call (h : Sound s) {o : Op Ctx Event Group Task} (hpatient : o.Patient s)
    (hok : o.run s = .ok t) : Sound t := by
  cases o with
  | pushStart c function doneTask =>
    refine h.step (.op (.pushStart c function doneTask) (fun hlive => ?_) hok)
    have herror : coFnPushStart s c function doneTask = .error _ :=
      coFnPushStart_error_iff.mpr ((h.guard c).mpr ⟨hlive, hpatient⟩)
    cases herror.symm.trans hok
  | eventInit e =>
    obtain rfl := Except.ok.inj hok
    exact h.eventInit e
  | push x => exact h.step (.op (.push x) trivial hok)
  | groupSet g mask => exact h.step (.op (.groupSet g mask) trivial hok)
  | groupClear g mask => exact h.step (.op (.groupClear g mask) trivial hok)

theorem reachable_sound (h : (callMachine Op.Patient).Reachable s) : Sound s := by
  refine h.invariant (fun _ hi => hi.sound) fun s t hs hstep => ?_
  cases hstep with
  | machine hm => exact hs.step hm
  | call o hpatient hok => exact hs.call hpatient hok

/-- **Started once.** With no start of a context between a start and its first run: a
start of a live context fails its assertion but for the time before the first run, no
context is to be resumed twice, and at most one instance of each is live. -/
theorem started_once (h : (callMachine Op.Patient).Reachable s) :
    (∀ c function doneTask, Live s c →
      (coFnPushStart s c function doneTask = .error
          (.assertion "Function not correctly initialized or started while already running") ↔
        ¬ NotRunYet s c)) ∧
    s.resuming.Nodup ∧ ∀ c, (s.starts c).length ≤ (s.returns c).length + 1 := by
  have hsound := reachable_sound h
  refine ⟨fun c function doneTask hlive => ?_, hsound.once, hsound.instances⟩
  rw [coFnPushStart_error_iff, hsound.guard c]
  exact and_iff_right hlive

/-- A context that runs. -/
theorem started_once_running : ∃ s : Runtime Unit Unit Unit Unit,
    (callMachine Op.Patient).Reachable s ∧ Live s () ∧
      coFnPushStart s () ⟨[]⟩ none = .error
        (.assertion "Function not correctly initialized or started while already running") ∧
      s.resuming.Nodup := by
  have hzero : (callMachine Op.Patient).Reachable (.zero : Runtime Unit Unit Unit Unit) :=
    .init Runtime.zero_initial
  have hstart := hzero.step
    (.call (.pushStart () ⟨[]⟩ none) (fun h => absurd h.1 (Nat.lt_irrefl 0)) rfl)
  have hbegin := hstart.step (.machine
    (.resume (c := ()) (q := []) (by unfold Runtime.Idle; decide) rfl rfl))
  obtain ⟨hguard, honce, -⟩ := started_once hbegin
  refine ⟨_, hbegin, Nat.zero_lt_one, (hguard () ⟨[]⟩ none Nat.zero_lt_one).mpr ?_, honce⟩
  intro hnot
  cases hnot.2

/-- Two starts before the first run: the second passes the guard, the context is to be
resumed twice and two instances are live. -/
theorem started_twice : ∃ s t : Runtime Unit Unit Unit Unit,
    (callMachine fun _ _ => True).Reachable s ∧ Live s () ∧
      coFnPushStart s () ⟨[]⟩ none = .ok t ∧
      (callMachine fun _ _ => True).Reachable t ∧ ¬ t.resuming.Nodup ∧
      (t.returns ()).length + 1 < (t.starts ()).length := by
  have hzero : (callMachine fun _ _ => True).Reachable (.zero : Runtime Unit Unit Unit Unit) :=
    .init Runtime.zero_initial
  have hfirst := hzero.step (.call (.pushStart () ⟨[]⟩ none) trivial rfl)
  have hsecond := hfirst.step (.call (.pushStart () ⟨[]⟩ none) trivial rfl)
  exact ⟨_, _, hfirst, Nat.zero_lt_one, rfl, hsecond, by decide, by decide⟩

end

end AiDeck.Coroutine
