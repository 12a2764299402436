import AiDeck.Coroutine.Machine

/-! # Where a context is

Every context has one home: it is idle, running, queued, on the list of an event or
the waiter of a group. The invariant says that the runtime's data agree with the
homes, and every call of the runtime keeps it. -/
namespace AiDeck.Coroutine
open AiDeck.Lib

inductive Home (Event Group : Type) where
  | idle
  | running
  | queued
  | event (e : Event)
  | group (g : Group)

section
variable {Ctx Event Group Task : Type}

/-- The context whose resume a pending task is. -/
def Pending.ctx? : Pending Ctx Event Task → Option Ctx
  | .resume c => some c
  | .task _ => none

/-- The contexts whose resumes are pending, in order. -/
def Runtime.resuming (s : Runtime Ctx Event Group Task) : List Ctx := s.queue.filterMap Pending.ctx?

/-- Is it the callback of an event? -/
def Pending.isCallback : Pending Ctx Event Task → Bool
  | .task (.event _) => true
  | _ => false

/-- The callbacks of events that are pending. -/
def callbacks (s : Runtime Ctx Event Group Task) : Nat := s.queue.countP Pending.isCallback

/-- The suspension of `c` is a `case` of its function. -/
def AtLine (s : Runtime Ctx Event Group Task) (c : Ctx) : Prop :=
  ∃ n ∈ (s.fn c).lines, s.resumePoint c = .line n

/-- A start whose return is outstanding. -/
def Outstanding (s : Runtime Ctx Event Group Task) (c : Ctx) : Prop :=
  s.starts c = s.returns c ++ [s.doneTask c]

/-- What the fields of a context are at each home. -/
def Local (s : Runtime Ctx Event Group Task) (c : Ctx) : Home Event Group → Prop
  | .idle => (s.resumePoint c = .start ∨ s.resumePoint c = .done) ∧ s.waitsOn c = none ∧
      s.starts c = s.returns c
  | .running => s.resumePoint c = .running ∧ s.waitsOn c = none ∧ Outstanding s c
  | .queued => (s.resumePoint c = .start ∨ AtLine s c) ∧ Outstanding s c
  | .event e => AtLine s c ∧ s.waitsOn c = some e ∧ Outstanding s c
  | .group _ => AtLine s c ∧ s.waitsOn c = none ∧ Outstanding s c

theorem Local.outstanding {s : Runtime Ctx Event Group Task} {c : Ctx} {x : Home Event Group}
    (h : Local s c x) (hx : x ≠ .idle) : Outstanding s c := by
  cases x with
  | idle => exact absurd rfl hx
  | running => exact h.2.2
  | queued => exact h.2
  | event e => exact h.2.2
  | group g => exact h.2.2

variable [DecidableEq Event]

/-- The pending resumes that end a wait on `e`, in order. -/
def pendingOn (s : Runtime Ctx Event Group Task) (e : Event) : List Ctx :=
  s.resuming.filter fun c => s.waitsOn c = some e

/-- The runtime agrees with the homes and with the lists `W` of the events. -/
structure Inv (home : Ctx → Home Event Group) (W : Event → List Ctx)
    (s : Runtime Ctx Event Group Task) : Prop where
  holds : Holds W s.lists
  waiting : ∀ e c, c ∈ W e ↔ home c = .event e
  once : s.resuming.Nodup
  queued : ∀ c, c ∈ s.resuming ↔ home c = .queued
  waitCtx : ∀ g c, (s.group g).waitCtx = some c ↔ home c = .group g
  closed : ∀ g c, (s.group g).waitCtx = some c →
    coEventGroupTest (s.group g) (s.group g).waitMask (s.group g).waitMode = false
  woken : ∀ e, s.eventDone e = true → W e = []
  fields : ∀ c, Local s c (home c)
  order : ∀ e, s.waits e = s.resumes e ++ pendingOn s e ++ W e

end

section
variable {Ctx Event Group Task : Type} {home : Ctx → Home Event Group} {W : Event → List Ctx}
  {s : Runtime Ctx Event Group Task} {c d : Ctx} {e : Event} {g : Group}

/-! ## The queue -/

theorem resuming_pushResume : (coFnPushResume s c).resuming = s.resuming ++ [c] := by
  rw [Runtime.resuming, coFnPushResume, List.filterMap_append]
  rfl

theorem resuming_push (t : PiTask Event Task) : (piTaskPush s t).resuming = s.resuming := by
  rw [Runtime.resuming, piTaskPush, List.filterMap_append]
  exact List.append_nil _

theorem callbacks_pushResume : callbacks (coFnPushResume s c) = callbacks s := by
  rw [callbacks, coFnPushResume, List.countP_append]
  rfl

theorem callbacks_pushOther (t : Task) : callbacks (piTaskPush s (.other t)) = callbacks s := by
  rw [callbacks, piTaskPush, List.countP_append]
  rfl

theorem callbacks_pushEvent : callbacks (piTaskPush s (.event e)) = callbacks s + 1 := by
  rw [callbacks, piTaskPush, List.countP_append]
  rfl

theorem callbacks_cons_other {q : List (Pending Ctx Event Task)} {p : Pending Ctx Event Task}
    (hq : s.queue = p :: q) (hp : p.isCallback = false) : callbacks s = q.countP Pending.isCallback := by
  rw [callbacks, hq]
  exact List.countP_cons_of_neg (by simp [hp])

theorem callbacks_cons_event {q : List (Pending Ctx Event Task)}
    (hq : s.queue = .task (.event e) :: q) :
    callbacks s = q.countP Pending.isCallback + 1 := by
  rw [callbacks, hq]
  exact List.countP_cons_of_pos rfl

/-! ## Homes after a move -/

theorem home_enter [DecidableEq Ctx] {x : Home Event Group} :
    Function.update home c x d = x ↔ d = c ∨ home d = x := by
  by_cases h : d = c
  · simp [h]
  · simp [h]

theorem home_leave [DecidableEq Ctx] {x y : Home Event Group} (hne : x ≠ y) :
    Function.update home c x d = y ↔ d ≠ c ∧ home d = y := by
  by_cases h : d = c
  · simp [h, hne]
  · simp [h]

/-- A move between two other homes. -/
theorem home_pass [DecidableEq Ctx] {x y : Home Event Group} (hx : x ≠ y) (hc : home c ≠ y) :
    Function.update home c x d = y ↔ home d = y := by
  rw [home_leave hx]
  constructor
  · exact And.right
  · intro h
    exact ⟨fun he => hc (he ▸ h), h⟩

/-! ## Contexts a call leaves alone -/

/-- The fields of `d` are the same in both states. -/
structure SameAt (s t : Runtime Ctx Event Group Task) (d : Ctx) : Prop where
  fn : t.fn d = s.fn d
  resumePoint : t.resumePoint d = s.resumePoint d
  doneTask : t.doneTask d = s.doneTask d
  starts : t.starts d = s.starts d
  returns : t.returns d = s.returns d
  waitsOn : t.waitsOn d = s.waitsOn d

theorem Local.congr {t : Runtime Ctx Event Group Task} {x : Home Event Group} (h : SameAt s t d)
    (hl : Local s d x) : Local t d x := by
  have hout : Outstanding s d → Outstanding t d := fun ho => by
    rw [Outstanding, h.starts, h.returns, h.doneTask]; exact ho
  have hline : AtLine s d → AtLine t d := by
    rintro ⟨n, hn, hp⟩
    exact ⟨n, by rw [h.fn]; exact hn, by rw [h.resumePoint]; exact hp⟩
  cases x with
  | idle =>
    obtain ⟨hp, hw, hs⟩ := hl
    exact ⟨by rw [h.resumePoint]; exact hp, h.waitsOn.trans hw,
      by rw [h.starts, h.returns]; exact hs⟩
  | running =>
    obtain ⟨hp, hw, ho⟩ := hl
    exact ⟨h.resumePoint.trans hp, h.waitsOn.trans hw, hout ho⟩
  | queued =>
    obtain ⟨hp, ho⟩ := hl
    exact ⟨hp.imp h.resumePoint.trans hline, hout ho⟩
  | event e =>
    obtain ⟨hp, hw, ho⟩ := hl
    exact ⟨hline hp, h.waitsOn.trans hw, hout ho⟩
  | group g =>
    obtain ⟨hp, hw, ho⟩ := hl
    exact ⟨hline hp, h.waitsOn.trans hw, hout ho⟩

/-- Only `c` moves: the others keep their fields. -/
theorem fields_move [DecidableEq Ctx] {t : Runtime Ctx Event Group Task} {x : Home Event Group}
    (h : ∀ d, Local s d (home d)) (hsame : ∀ d, d ≠ c → SameAt s t d) (hc : Local t c x) (d : Ctx) :
    Local t d (Function.update home c x d) := by
  by_cases hd : d = c
  · rw [hd, Function.update_self]
    exact hc
  · rw [Function.update_of_ne hd]
    exact (h d).congr (hsame d hd)

section
variable [DecidableEq Event]

theorem pendingOn_congr {t : Runtime Ctx Event Group Task} (hr : t.resuming = s.resuming)
    (hw : ∀ d ∈ s.resuming, t.waitsOn d = s.waitsOn d) : pendingOn t e = pendingOn s e := by
  rw [pendingOn, hr]
  refine List.filter_congr fun d hd => ?_
  rw [hw d hd]

/-- A context queued last ends its wait, if it has one, last. -/
theorem pendingOn_concat {t : Runtime Ctx Event Group Task}
    (hr : t.resuming = s.resuming ++ [c]) (hw : ∀ d ∈ s.resuming, t.waitsOn d = s.waitsOn d) :
    pendingOn t e = pendingOn s e ++ if t.waitsOn c = some e then [c] else [] := by
  rw [pendingOn, hr, List.filter_append]
  congr 1
  · refine List.filter_congr fun d hd => ?_
    rw [hw d hd]
  · by_cases h : t.waitsOn c = some e
    · rw [if_pos h, List.filter_singleton, h]
      simp
    · rw [if_neg h, List.filter_singleton]
      simp [h]

namespace Inv

theorem notMem_resuming (h : Inv home W s) (hc : home c ≠ .queued) : c ∉ s.resuming :=
  fun hm => hc ((h.queued c).mp hm)

theorem notMem_lists (h : Inv home W s) (hc : ∀ e, home c ≠ .event e) : ∀ e, c ∉ W e :=
  fun e hm => hc e ((h.waiting e c).mp hm)

theorem push (h : Inv home W s) (t : PiTask Event Task) : Inv home W (piTaskPush s t) := by
  refine ⟨h.holds, h.waiting, ?_, ?_, h.waitCtx, h.closed, h.woken, h.fields, ?_⟩
  · rw [resuming_push]; exact h.once
  · intro c
    rw [resuming_push]
    exact h.queued c
  · intro e
    rw [pendingOn_congr (resuming_push t) fun _ _ => rfl]
    exact h.order e

variable [DecidableEq Ctx]

/-- A context that was idle or running is queued, its wait over. -/
theorem enqueue {t : Runtime Ctx Event Group Task} (h : Inv home W s)
    (hc : home c = .idle ∨ home c = .running) (hholds : Holds W t.lists)
    (hqueue : t.queue = s.queue ++ [.resume c]) (hdone : t.eventDone = s.eventDone)
    (hgroup : ∀ g, (t.group g).waitCtx = (s.group g).waitCtx ∧
      ((s.group g).waitCtx ≠ none → t.group g = s.group g))
    (hsame : ∀ d, d ≠ c → SameAt s t d) (hlocal : Local t c (.queued : Home Event Group))
    (horder : ∀ e, t.waits e = t.resumes e ++ pendingOn t e ++ W e) :
    Inv (Function.update home c .queued) W t := by
  have hqueued : home c ≠ .queued := by rcases hc with hc | hc <;> simp [hc]
  have hevent : ∀ e, home c ≠ .event e := by rcases hc with hc | hc <;> simp [hc]
  have hgroups : ∀ g, home c ≠ .group g := by rcases hc with hc | hc <;> simp [hc]
  have hresuming : t.resuming = s.resuming ++ [c] := by
    rw [Runtime.resuming, hqueue, List.filterMap_append]
    rfl
  refine ⟨hholds, ?_, ?_, ?_, ?_, ?_, ?_, fields_move h.fields hsame hlocal, horder⟩
  · intro e d
    exact (h.waiting e d).trans (home_pass (by simp) (hevent e)).symm
  · rw [hresuming, List.nodup_append]
    refine ⟨h.once, List.nodup_singleton c, ?_⟩
    intro a ha b hb he
    exact h.notMem_resuming hqueued (List.mem_singleton.mp hb ▸ he ▸ ha)
  · intro d
    rw [hresuming, List.mem_append, List.mem_singleton, home_enter, h.queued d, or_comm]
  · intro g d
    rw [(hgroup g).1]
    exact (h.waitCtx g d).trans (home_pass (by simp) (hgroups g)).symm
  · intro g d hg
    rw [(hgroup g).1] at hg
    rw [(hgroup g).2 (by simp [hg])]
    exact h.closed g d hg
  · rw [hdone]
    exact h.woken

/-! ## Starting, initialising and groups -/

theorem pushStart (h : Inv home W s) (hc : home c = .idle) (function : CoFn)
    (doneTask : Option (PiTask Event Task)) :
    coFnPushStart s c function doneTask = .ok (coFnPushResume (coFnInit s c function doneTask) c) ∧
      Inv (Function.update home c .queued) W
        (coFnPushResume (coFnInit s c function doneTask) c) := by
  obtain ⟨hpoint, hwait, hstarts⟩ : Local s c (.idle : Home Event Group) := hc ▸ h.fields c
  have hnot : ¬ (s.resumePoint c ≠ .start ∧ s.resumePoint c ≠ .done) := by
    rintro ⟨hs, hd⟩
    exact hpoint.elim hs hd
  have hfree : ∀ e, c ∉ W e := h.notMem_lists (by simp [hc])
  refine ⟨if_neg hnot, ?_⟩
  refine h.enqueue (Or.inl hc) (listElInit_holds h.holds hfree) rfl rfl (fun g => ⟨rfl, fun _ => rfl⟩)
    ?_ ?_ ?_
  · intro d hd
    constructor <;> first | rfl | exact Function.update_of_ne hd ..
  · refine ⟨Or.inl (Function.update_self ..), ?_⟩
    simp only [Outstanding, coFnPushResume, coFnInit, Function.update_self, hstarts]
  · intro e
    rw [pendingOn_concat resuming_pushResume fun _ _ => rfl, if_neg, List.append_nil]
    · exact h.order e
    · change ¬ s.waitsOn c = some e
      simp [hwait]

omit [DecidableEq Ctx] in
theorem eventInit (h : Inv home W s) (he : s.lists.first e = none) :
    Inv home W (coEventInit s e) := by
  have hw := h.holds.first_eq_none_iff.mp he
  have hlists : (coEventInit s e).lists = s.lists := listHeadInit_eq h.holds hw
  refine ⟨hlists ▸ h.holds, h.waiting, h.once, h.queued, h.waitCtx, h.closed, ?_, h.fields, h.order⟩
  intro i hi
  by_cases hie : i = e
  · rw [hie]; exact hw
  · exact h.woken i ((Function.update_of_ne hie ..).symm.trans hi)

end Inv

end

theorem coEventGroupTest_any {g : EventGroup Ctx} {w : BitVec 32} :
    coEventGroupTest g w .any = true ↔ g.mask &&& w ≠ 0 := decide_eq_true_iff

theorem coEventGroupTest_all {g : EventGroup Ctx} {w : BitVec 32} :
    coEventGroupTest g w .all = true ↔ g.mask &&& w = w := decide_eq_true_iff

/-- Fewer bits meet no condition that more bits do not meet. -/
theorem coEventGroupTest_clear {g : EventGroup Ctx} {w m : BitVec 32} {mode : WaitMode}
    (h : coEventGroupTest g w mode = false) :
    coEventGroupTest (g.withMask (g.mask &&& m)) w mode = false := by
  have hswap : g.mask &&& m &&& w = g.mask &&& w &&& m := by
    rw [BitVec.and_assoc, BitVec.and_comm m w, BitVec.and_assoc]
  rw [Bool.eq_false_iff] at h ⊢
  intro hmore
  apply h
  cases mode with
  | any =>
    rw [coEventGroupTest_any] at hmore ⊢
    intro hzero
    apply hmore
    change g.mask &&& m &&& w = 0
    rw [hswap, hzero]
    exact BitVec.zero_and
  | all =>
    rw [coEventGroupTest_all] at hmore ⊢
    change g.mask &&& m &&& w = w at hmore
    rw [hswap] at hmore
    calc g.mask &&& w = g.mask &&& (g.mask &&& w &&& m) := by rw [hmore]
      _ = g.mask &&& w &&& m := by rw [← BitVec.and_assoc, ← BitVec.and_assoc, BitVec.and_self]
      _ = w := hmore

section
variable [DecidableEq Event] [DecidableEq Group]

namespace Inv

/-- A group whose waiter stays, its condition not met. -/
theorem setGroup (h : Inv home W s) {g : Group} {x : EventGroup Ctx}
    (hctx : x.waitCtx = (s.group g).waitCtx)
    (hclosed : x.waitCtx ≠ none → coEventGroupTest x x.waitMask x.waitMode = false) :
    Inv home W (s.setGroup g x) := by
  refine ⟨h.holds, h.waiting, h.once, h.queued, ?_, ?_, h.woken, h.fields, h.order⟩
  · intro i d
    by_cases hi : i = g
    · subst hi
      simp only [Runtime.setGroup, Function.update_self, hctx]
      exact h.waitCtx i d
    · simp only [Runtime.setGroup, Function.update_of_ne hi]
      exact h.waitCtx i d
  · intro i d hd
    by_cases hi : i = g
    · subst hi
      simp only [Runtime.setGroup, Function.update_self] at hd ⊢
      exact hclosed (by simp [hd])
    · simp only [Runtime.setGroup, Function.update_of_ne hi] at hd ⊢
      exact h.closed i d hd

theorem groupClear (h : Inv home W s) (g : Group) (m : BitVec 32) :
    Inv home W (coEventGroupClear s g m) := by
  refine h.setGroup rfl fun hne => ?_
  obtain ⟨c, hc⟩ := Option.ne_none_iff_exists'.mp hne
  exact coEventGroupTest_clear (h.closed g c hc)

variable [DecidableEq Ctx]

/-- The waiter of a group is queued and the group left without one. -/
theorem groupWake (h : Inv home W s) {g : Group} {x : EventGroup Ctx} (hc : home c = .group g)
    (hx : x.waitCtx = none) :
    Inv (Function.update home c .queued) W ((coFnPushResume s c).setGroup g x) := by
  obtain ⟨hline, hwait, hout⟩ : Local s c (.group g) := hc ▸ h.fields c
  have hnot : c ∉ s.resuming := h.notMem_resuming (by simp [hc])
  have hresuming : ((coFnPushResume s c).setGroup g x).resuming = s.resuming ++ [c] :=
    resuming_pushResume
  refine ⟨h.holds, ?_, ?_, ?_, ?_, ?_, h.woken, ?_, ?_⟩
  · intro e d
    exact (h.waiting e d).trans (home_pass (by simp) (by simp [hc])).symm
  · rw [hresuming, List.nodup_append]
    refine ⟨h.once, List.nodup_singleton c, ?_⟩
    intro a ha b hb he
    exact hnot (List.mem_singleton.mp hb ▸ he ▸ ha)
  · intro d
    rw [hresuming, List.mem_append, List.mem_singleton, home_enter, h.queued d, or_comm]
  · intro i d
    rw [home_leave (by simp)]
    by_cases hi : i = g
    · subst hi
      simp only [Runtime.setGroup, Function.update_self, hx]
      refine ⟨fun hn => absurd hn.symm (by simp), ?_⟩
      rintro ⟨hne, hd⟩
      have hsame := ((h.waitCtx i c).mpr hc).symm.trans ((h.waitCtx i d).mpr hd)
      exact absurd (Option.some.inj hsame).symm hne
    · rw [Runtime.setGroup]
      simp only [Function.update_of_ne hi, coFnPushResume, h.waitCtx i d]
      refine ⟨fun hd => ⟨?_, hd⟩, And.right⟩
      rintro rfl
      rw [hc] at hd
      exact hi (Home.group.inj hd).symm
  · intro i d hd
    by_cases hi : i = g
    · subst hi
      simp only [Runtime.setGroup, Function.update_self, hx] at hd
      cases hd
    · simp only [Runtime.setGroup, Function.update_of_ne hi] at hd ⊢
      exact h.closed i d hd
  · refine fields_move h.fields (fun d _ => ?_) ⟨Or.inr hline, hout⟩
    constructor <;> rfl
  · intro e
    rw [pendingOn_concat (s := s) (c := c) hresuming fun _ _ => rfl, if_neg, List.append_nil]
    · exact h.order e
    · change ¬ s.waitsOn c = some e
      simp [hwait]

/-- Setting bits wakes the waiter of the group when its condition is met, and nobody
else. -/
theorem groupSet (h : Inv home W s) (g : Group) (m : BitVec 32) :
    ∃ home', Inv home' W (coEventGroupSet s g m) := by
  cases hctx : (s.group g).waitCtx with
  | none =>
    rw [coEventGroupSet_alone hctx]
    exact ⟨home, h.setGroup rfl fun hne => absurd hctx hne⟩
  | some c =>
    cases htest : coEventGroupTest ((s.group g).withMask ((s.group g).mask ||| m))
        (s.group g).waitMask (s.group g).waitMode with
    | true =>
      rw [coEventGroupSet_wakes hctx htest]
      exact ⟨_, h.groupWake ((h.waitCtx g c).mp hctx) rfl⟩
    | false =>
      rw [coEventGroupSet_waits htest]
      exact ⟨home, h.setGroup rfl fun _ => htest⟩

end Inv

end

/-! ## The scheduler -/

section
variable [DecidableEq Ctx] [DecidableEq Event] {q : List (Pending Ctx Event Task)}

/-- The homes once the contexts of `l` are queued. -/
def wake (home : Ctx → Home Event Group) (l : List Ctx) (d : Ctx) : Home Event Group :=
  if d ∈ l then .queued else home d

namespace Inv

omit [DecidableEq Ctx] in
theorem other {x : Task} (h : Inv home W s) (hq : s.queue = .task (.other x) :: q) :
    Inv home W (s.dequeue q) := by
  have hresuming : (s.dequeue q).resuming = s.resuming := by
    rw [Runtime.resuming, Runtime.resuming, hq]; rfl
  refine ⟨h.holds, h.waiting, hresuming ▸ h.once, fun d => hresuming ▸ h.queued d, h.waitCtx,
    h.closed, h.woken, h.fields, fun e => ?_⟩
  rw [pendingOn_congr hresuming fun _ _ => rfl]
  exact h.order e

variable [Fintype Ctx]

/-- The callback of an event queues its waiters in order. -/
theorem callback (h : Inv home W s) (hq : s.queue = .task (.event e) :: q) :
    ∃ lists, coEventCallback (s.dequeueEvent e q) e =
        .ok ((s.dequeueEvent e q).resumeAll lists (W e)) ∧
      Inv (wake home (W e)) (Function.update W e [])
        ((s.dequeueEvent e q).resumeAll lists (W e)) := by
  obtain ⟨lists, hcallback, hholds⟩ := coEventCallback_holds (s.dequeueEvent e q) e h.holds
  refine ⟨lists, hcallback, ?_⟩
  have hresuming : ((s.dequeueEvent e q).resumeAll lists (W e)).resuming = s.resuming ++ W e := by
    simp only [Runtime.resuming, Runtime.resumeAll, Runtime.dequeueEvent, hq,
      List.filterMap_append, List.filterMap_map]
    congr 1
    exact List.filterMap_some
  have hhome : ∀ d ∈ W e, home d = .event e := fun d hd => (h.waiting e d).mp hd
  refine ⟨hholds, ?_, ?_, ?_, ?_, h.closed, ?_, ?_, ?_⟩
  · intro i d
    by_cases hd : d ∈ W e
    · simp only [wake, if_pos hd, reduceCtorEq, iff_false]
      by_cases hi : i = e
      · subst hi
        simp
      · rw [Function.update_of_ne hi, h.waiting i d, hhome d hd]
        intro he
        exact hi (Home.event.inj he).symm
    · simp only [wake, if_neg hd]
      by_cases hi : i = e
      · subst hi
        rw [Function.update_self, ← h.waiting i d]
        exact ⟨fun hm => absurd hm List.not_mem_nil, fun hm => absurd hm hd⟩
      · rw [Function.update_of_ne hi]
        exact h.waiting i d
  · rw [hresuming, List.nodup_append]
    refine ⟨h.once, h.holds.nodup e, ?_⟩
    rintro a ha b hb rfl
    have hqueued := (h.queued a).mp ha
    rw [hhome a hb] at hqueued
    cases hqueued
  · intro d
    rw [hresuming, List.mem_append, h.queued d]
    by_cases hd : d ∈ W e
    · simp [wake, hd]
    · simp [wake, hd]
  · intro g d
    change (s.group g).waitCtx = some d ↔ _
    rw [h.waitCtx g d]
    by_cases hd : d ∈ W e
    · simp [wake, hd, hhome d hd]
    · simp [wake, hd]
  · intro i hi
    by_cases hie : i = e
    · rw [hie, Function.update_self]
    · rw [Function.update_of_ne hie]
      exact h.woken i ((Function.update_of_ne hie ..).symm.trans hi)
  · intro d
    refine Local.congr (s := s) ⟨rfl, rfl, rfl, rfl, rfl, rfl⟩ ?_
    by_cases hd : d ∈ W e
    · obtain ⟨hline, -, hout⟩ : Local s d (.event e : Home Event Group) := hhome d hd ▸ h.fields d
      simp only [wake, if_pos hd]
      exact ⟨Or.inr hline, hout⟩
    · simp only [wake, if_neg hd]
      exact h.fields d
  · intro i
    have hpending : pendingOn ((s.dequeueEvent e q).resumeAll lists (W e)) i =
        pendingOn s i ++ (W e).filter fun d => s.waitsOn d = some i := by
      rw [pendingOn, hresuming, List.filter_append]
      rfl
    have hon : ∀ d ∈ W e, s.waitsOn d = some e := fun d hd => by
      obtain ⟨-, hw, -⟩ : Local s d (.event e : Home Event Group) := hhome d hd ▸ h.fields d
      exact hw
    rw [hpending]
    change s.waits i = s.resumes i ++ _ ++ _
    rw [h.order i]
    by_cases hi : i = e
    · subst hi
      rw [Function.update_self, List.append_nil, ← List.append_assoc,
        List.filter_eq_self.mpr fun d hd => decide_eq_true (hon d hd)]
    · rw [Function.update_of_ne hi, List.filter_eq_nil_iff.mpr, List.append_nil]
      intro d hd
      rw [hon d hd]
      simp only [Option.some.injEq, decide_eq_true_eq]
      exact fun he => hi he.symm

omit [Fintype Ctx] in
/-- The `switch` of a pending context finds a suspension or the start. -/
theorem begin_ok (h : Inv home W s) (hq : s.queue = .resume c :: q) :
    coFnBegin (s.dequeue q) c =
      .ok (s.resumePoint c, coFnSuspend (recordResume (s.dequeue q) c) c .running) := by
  have hmem : c ∈ s.resuming := by
    rw [Runtime.resuming, hq]; exact List.mem_cons_self
  obtain ⟨hpoint, -⟩ : Local s c (.queued : Home Event Group) := (h.queued c).mp hmem ▸ h.fields c
  rcases hpoint with hstart | ⟨n, hn, hline⟩
  · simp only [coFnBegin, Runtime.dequeue, hstart]
  · simp only [coFnBegin, Runtime.dequeue, hline, if_pos hn]

omit [Fintype Ctx] in
/-- A pending context runs. -/
theorem resume (h : Inv home W s) (hq : s.queue = .resume c :: q) :
    Inv (Function.update home c .running) W
      (coFnSuspend (recordResume (s.dequeue q) c) c .running) := by
  generalize ht : coFnSuspend (recordResume (s.dequeue q) c) c .running = t
  rw [recordResume_eq] at ht
  have hresuming : s.resuming = c :: t.resuming := by
    rw [← ht, Runtime.resuming, hq]; rfl
  have hqueued : home c = .queued := (h.queued c).mp (hresuming ▸ List.mem_cons_self)
  obtain ⟨-, hout⟩ : Local s c (.queued : Home Event Group) := hqueued ▸ h.fields c
  have honce := h.once
  rw [hresuming, List.nodup_cons] at honce
  have hlocal : Local t c (.running : Home Event Group) := by
    rw [← ht]
    exact ⟨Function.update_self .., Function.update_self .., hout⟩
  have hsame : ∀ d, d ≠ c → SameAt s t d := by
    intro d hd
    rw [← ht]
    constructor <;> first | rfl | exact Function.update_of_ne hd ..
  -- only the head of the pending resumes is gone
  have hpending : ∀ i, pendingOn s i =
      (if s.waitsOn c = some i then [c] else []) ++ pendingOn t i := by
    intro i
    have hrest : t.resuming.filter (fun d => s.waitsOn d = some i) = pendingOn t i := by
      refine List.filter_congr fun d hd => ?_
      rw [(hsame d (fun he => honce.1 (he ▸ hd))).waitsOn]
    rw [pendingOn, hresuming, List.filter_cons, hrest]
    by_cases hw : s.waitsOn c = some i
    · simp [hw]
    · simp [hw]
  have hgroup : t.group = s.group := by rw [← ht]; rfl
  refine ⟨?_, ?_, honce.2, ?_, ?_, ?_, ?_, fields_move h.fields hsame hlocal, ?_⟩
  · rw [← ht]; exact h.holds
  · intro i d
    exact (h.waiting i d).trans (home_pass (by simp) (by simp [hqueued])).symm
  · intro d
    rw [home_leave (by simp), ← h.queued d, hresuming, List.mem_cons]
    constructor
    · intro hd
      exact ⟨fun he => honce.1 (he ▸ hd), Or.inr hd⟩
    · rintro ⟨hne, hd⟩
      exact hd.resolve_left hne
  · intro g d
    rw [hgroup]
    exact (h.waitCtx g d).trans (home_pass (by simp) (by simp [hqueued])).symm
  · rw [hgroup]; exact h.closed
  · rw [← ht]; exact h.woken
  · intro i
    have hwaits : t.waits = s.waits := by rw [← ht]; rfl
    have hresumes : t.resumes i = s.resumes i ++ if s.waitsOn c = some i then [c] else [] := by
      rw [← ht]; rfl
    rw [hwaits, h.order i, hpending i, hresumes]
    simp only [List.append_assoc]

/-! ## Suspending and returning -/

omit [DecidableEq Event] [Fintype Ctx] in
theorem suspend_sameAt {p : ResumePoint} : d ≠ c → SameAt s (coFnSuspend s c p) d := by
  intro hd
  constructor <;> first | rfl | exact Function.update_of_ne hd ..

omit [Fintype Ctx] in
theorem yield (h : Inv home W s) (hc : home c = .running) {n : Nat} (hn : n ∈ (s.fn c).lines) :
    Inv (Function.update home c .queued) W (coYield s c n) := by
  obtain ⟨-, hwait, hout⟩ : Local s c (.running : Home Event Group) := hc ▸ h.fields c
  refine h.enqueue (Or.inr hc) h.holds rfl rfl (fun g => ⟨rfl, fun _ => rfl⟩)
    (fun d hd => ?_) ⟨Or.inr ⟨n, hn, Function.update_self ..⟩, hout⟩ fun e => ?_
  · obtain ⟨h1, h2, h3, h4, h5, h6⟩ := suspend_sameAt (s := s) (p := .line n) hd
    exact ⟨h1, h2, h3, h4, h5, h6⟩
  · rw [pendingOn_concat (s := s) (c := c) (t := coYield s c n) resuming_pushResume fun _ _ => rfl,
      if_neg, List.append_nil]
    · exact h.order e
    · change ¬ s.waitsOn c = some e
      simp [hwait]

omit [Fintype Ctx] in
/-- The waits of a context that is not queued belong to no pending resume. -/
theorem pendingOn_recordWait (h : Inv home W s) (hc : home c = .running) {lists : Lists Event Ctx}
    {p : ResumePoint} (i : Event) :
    pendingOn (recordWait ((coFnSuspend s c p).withLists lists) e c) i = pendingOn s i := by
  have hnot : c ∉ s.resuming := h.notMem_resuming (by simp [hc])
  refine pendingOn_congr (s := s) rfl fun d hd => Function.update_of_ne ?_ ..
  rintro rfl
  exact hnot hd

/-- A wait on an event that is done ends at once. -/
theorem waitDone (h : Inv home W s) (hc : home c = .running) {n : Nat} (hn : n ∈ (s.fn c).lines)
    (hdone : s.eventDone e = true) :
    ∃ lists, coWait s c n e = .ok
        (coFnPushResume (recordWait ((coFnSuspend s c (.line n)).withLists lists) e c) c) ∧
      Inv (Function.update home c .queued) W
        (coFnPushResume (recordWait ((coFnSuspend s c (.line n)).withLists lists) e c) c) := by
  obtain ⟨-, hwait, hout⟩ : Local s c (.running : Home Event Group) := hc ▸ h.fields c
  have hfree : ∀ i, c ∉ W i := h.notMem_lists (by simp [hc])
  have hw := h.woken e hdone
  obtain ⟨lists, hok, hholds⟩ := coEventWait_done (coFnSuspend s c (.line n)) h.holds hfree hdone hw
  refine ⟨lists, hok, h.enqueue (Or.inr hc) hholds rfl rfl (fun g => ⟨rfl, fun _ => rfl⟩)
    (fun d hd => ?_) ⟨Or.inr ⟨n, hn, Function.update_self ..⟩, hout⟩ fun i => ?_⟩
  · constructor <;> first | rfl | exact Function.update_of_ne hd ..
  · have hpending := pendingOn_concat (c := c) (e := i)
      (s := recordWait ((coFnSuspend s c (.line n)).withLists lists) e c)
      resuming_pushResume fun _ _ => rfl
    rw [h.pendingOn_recordWait hc] at hpending
    rw [hpending]
    simp only [coFnPushResume, recordWait, Function.update_self, Option.some.injEq]
    by_cases hi : i = e
    · subst hi
      rw [Function.update_self, if_pos rfl, hw, List.append_nil, ← List.append_assoc]
      change s.waits i ++ [c] = s.resumes i ++ pendingOn s i ++ [c]
      rw [h.order i, hw, List.append_nil]
    · rw [Function.update_of_ne hi, if_neg (Ne.symm hi), List.append_nil]
      exact h.order i

/-- A wait on an event that is not done ends when its callback runs. -/
theorem waitOpen (h : Inv home W s) (hc : home c = .running) {n : Nat} (hn : n ∈ (s.fn c).lines)
    (hdone : s.eventDone e = false) :
    ∃ lists, coWait s c n e = .ok (recordWait ((coFnSuspend s c (.line n)).withLists lists) e c) ∧
      Inv (Function.update home c (.event e)) (Function.update W e (W e ++ [c]))
        (recordWait ((coFnSuspend s c (.line n)).withLists lists) e c) := by
  obtain ⟨-, hwait, hout⟩ : Local s c (.running : Home Event Group) := hc ▸ h.fields c
  have hfree : ∀ i, c ∉ W i := h.notMem_lists (by simp [hc])
  obtain ⟨lists, hok, hholds⟩ := coEventWait_holds (coFnSuspend s c (.line n)) h.holds hfree hdone
  refine ⟨lists, hok, hholds, ?_, h.once, ?_, ?_, h.closed, ?_,
    fields_move h.fields (fun d hd => ?_) ?_, ?_⟩
  · intro i d
    by_cases hi : i = e
    · subst hi
      rw [Function.update_self, home_enter, List.mem_append, List.mem_singleton, h.waiting i d,
        or_comm]
    · rw [Function.update_of_ne hi]
      exact (h.waiting i d).trans
        (home_pass (by simpa using Ne.symm hi) (by simp [hc])).symm
  · intro d
    exact (h.queued d).trans (home_pass (by simp) (by simp [hc])).symm
  · intro g d
    exact (h.waitCtx g d).trans (home_pass (by simp) (by simp [hc])).symm
  · intro i hi
    rw [Function.update_of_ne]
    · exact h.woken i hi
    · rintro rfl
      exact Bool.eq_false_iff.mp hdone hi
  · constructor <;> first | rfl | exact Function.update_of_ne hd ..
  · exact ⟨⟨n, hn, Function.update_self ..⟩, Function.update_self .., hout⟩
  · intro i
    rw [h.pendingOn_recordWait hc]
    by_cases hi : i = e
    · subst hi
      simp only [recordWait, Function.update_self, ← List.append_assoc]
      exact congrArg (· ++ [c]) (h.order i)
    · simp only [recordWait, Function.update_of_ne hi]
      exact h.order i

/-- A wait ends at once or when the event's callback runs. -/
theorem wait (h : Inv home W s) (hc : home c = .running) {n : Nat} (hn : n ∈ (s.fn c).lines)
    (e : Event) : ∃ t home' W', coWait s c n e = .ok t ∧ Inv home' W' t := by
  cases hdone : s.eventDone e with
  | true =>
    obtain ⟨lists, hok, hi⟩ := h.waitDone hc hn hdone
    exact ⟨_, _, _, hok, hi⟩
  | false =>
    obtain ⟨lists, hok, hi⟩ := h.waitOpen hc hn hdone
    exact ⟨_, _, _, hok, hi⟩

omit [Fintype Ctx] in
/-- A returning context is idle, its `done_task` pushed. -/
theorem ret (h : Inv home W s) (hc : home c = .running) :
    Inv (Function.update home c .idle) W (coReturn s c) := by
  obtain ⟨-, hwait, hout⟩ : Local s c (.running : Home Event Group) := hc ▸ h.fields c
  have hidle : Inv (Function.update home c .idle) W { s with
      resumePoint := Function.update s.resumePoint c .done
      returns := Function.update s.returns c (s.returns c ++ [s.doneTask c]) } := by
    refine ⟨h.holds, ?_, h.once, ?_, ?_, h.closed, h.woken,
      fields_move h.fields (fun d hd => ?_) ?_, h.order⟩
    · intro i d
      exact (h.waiting i d).trans (home_pass (by simp) (by simp [hc])).symm
    · intro d
      exact (h.queued d).trans (home_pass (by simp) (by simp [hc])).symm
    · intro g d
      exact (h.waitCtx g d).trans (home_pass (by simp) (by simp [hc])).symm
    · constructor <;> first | rfl | exact Function.update_of_ne hd ..
    · refine ⟨Or.inr (Function.update_self ..), hwait, ?_⟩
      simp only [Function.update_self]
      exact hout
  rw [coReturn]
  cases hd : s.doneTask c with
  | none => rw [hd] at hidle; exact hidle
  | some t => rw [hd] at hidle; exact hidle.push t

end Inv

end

section
variable [DecidableEq Ctx] [DecidableEq Event] [DecidableEq Group]

namespace Inv

/-- A wait on a group whose bits are set ends at once. -/
theorem waitGroupDone (h : Inv home W s) (hc : home c = .running) {n : Nat}
    (hn : n ∈ (s.fn c).lines) {mask : BitVec 32} {mode : WaitMode}
    (hctx : (s.group g).waitCtx = none) (htest : coEventGroupTest (s.group g) mask mode = true) :
    coWaitGroup s c n g mask mode = .ok (coFnPushResume ((coFnSuspend s c (.line n)).setGroup g
        ⟨(s.group g).mask, none, mask, mode⟩) c) ∧
      Inv (Function.update home c .queued) W (coFnPushResume ((coFnSuspend s c (.line n)).setGroup g
        ⟨(s.group g).mask, none, mask, mode⟩) c) := by
  obtain ⟨-, hwait, hout⟩ : Local s c (.running : Home Event Group) := hc ▸ h.fields c
  have hsome : ¬ (s.group g).waitCtx.isSome = true := by simp [hctx]
  refine ⟨(if_neg hsome).trans (if_pos htest), ?_⟩
  refine h.enqueue (Or.inr hc) h.holds rfl rfl (fun i => ?_) (fun d hd => ?_)
    ⟨Or.inr ⟨n, hn, Function.update_self ..⟩, hout⟩ fun e => ?_
  · by_cases hi : i = g
    · subst hi
      refine ⟨?_, fun hne => absurd hctx hne⟩
      simp only [coFnPushResume, Runtime.setGroup, Function.update_self, hctx]
    · simp only [coFnPushResume, Runtime.setGroup, coFnSuspend, Function.update_of_ne hi]
      exact ⟨trivial, fun _ => trivial⟩
  · constructor <;> first | rfl | exact Function.update_of_ne hd ..
  · rw [pendingOn_concat (s := s) (c := c) (t := coFnPushResume ((coFnSuspend s c (.line n)).setGroup
      g ⟨(s.group g).mask, none, mask, mode⟩) c) resuming_pushResume fun _ _ => rfl, if_neg,
      List.append_nil]
    · exact h.order e
    · change ¬ s.waitsOn c = some e
      simp [hwait]

/-- A wait on a group whose bits are not set ends when a call sets them. -/
theorem waitGroupOpen (h : Inv home W s) (hc : home c = .running) {n : Nat}
    (hn : n ∈ (s.fn c).lines) {mask : BitVec 32} {mode : WaitMode}
    (hctx : (s.group g).waitCtx = none) (htest : coEventGroupTest (s.group g) mask mode = false) :
    coWaitGroup s c n g mask mode = .ok ((coFnSuspend s c (.line n)).setGroup g
        ⟨(s.group g).mask, some c, mask, mode⟩) ∧
      Inv (Function.update home c (.group g)) W ((coFnSuspend s c (.line n)).setGroup g
        ⟨(s.group g).mask, some c, mask, mode⟩) := by
  obtain ⟨-, hwait, hout⟩ : Local s c (.running : Home Event Group) := hc ▸ h.fields c
  have hsome : ¬ (s.group g).waitCtx.isSome = true := by simp [hctx]
  have hopen : ¬ coEventGroupTest (s.group g) mask mode = true := by simp [htest]
  refine ⟨(if_neg hsome).trans (if_neg hopen), h.holds, ?_, h.once, ?_, ?_, ?_, h.woken,
    fields_move h.fields (fun d hd => ?_) ⟨⟨n, hn, Function.update_self ..⟩, hwait, hout⟩, h.order⟩
  · intro i d
    exact (h.waiting i d).trans (home_pass (by simp) (by simp [hc])).symm
  · intro d
    exact (h.queued d).trans (home_pass (by simp) (by simp [hc])).symm
  · intro i d
    by_cases hi : i = g
    · subst hi
      simp only [Runtime.setGroup, Function.update_self, home_enter, ← h.waitCtx i d, hctx,
        Option.some.injEq, reduceCtorEq, or_false]
      exact eq_comm
    · simp only [Runtime.setGroup, Function.update_of_ne hi]
      exact (h.waitCtx i d).trans
        (home_pass (by simpa using Ne.symm hi) (by simp [hc])).symm
  · intro i d hd
    by_cases hi : i = g
    · subst hi
      simp only [Runtime.setGroup, Function.update_self]
      exact htest
    · simp only [Runtime.setGroup, Function.update_of_ne hi] at hd ⊢
      exact h.closed i d hd
  · constructor <;> first | rfl | exact Function.update_of_ne hd ..

/-- A wait on a group with a waiter stops the program; any other wait goes on. -/
theorem waitGroup (h : Inv home W s) (hc : home c = .running) {n : Nat}
    (hn : n ∈ (s.fn c).lines) {mask : BitVec 32} {mode : WaitMode}
    {t : Runtime Ctx Event Group Task} (ht : coWaitGroup s c n g mask mode = .ok t) :
    ∃ home', Inv home' W t := by
  have hctx : (s.group g).waitCtx = none := by
    by_contra hne
    rw [coWaitGroup, coEventGroupWait, if_pos] at ht
    · cases ht
    · exact Option.isSome_iff_ne_none.mpr hne
  cases htest : coEventGroupTest (s.group g) mask mode with
  | true =>
    obtain ⟨hok, hi⟩ := h.waitGroupDone hc hn hctx htest
    obtain rfl := Except.ok.inj (hok.symm.trans ht)
    exact ⟨_, hi⟩
  | false =>
    obtain ⟨hok, hi⟩ := h.waitGroupOpen hc hn hctx htest
    obtain rfl := Except.ok.inj (hok.symm.trans ht)
    exact ⟨_, hi⟩

end Inv

end

end

end AiDeck.Coroutine
