import AiDeck.Coroutine.WakeUp
import AiDeck.Cpx.LinkLoop

/-! # How far the link is from rest

Every reachable state of the link task has a place. With no request and no edge of NINA
added, the task comes to rest; it rests in a wait for bits that are not set. -/
namespace AiDeck.Cpx
open AiDeck.Coroutine AiDeck.Lib LinkEvent

section
variable {S R Task : Type} {s t : LinkSystem S R Task} {home home' : Home Unit Unit}
  {W : Unit → List Unit} {place place' : Place} {l : Link S R Task}
  {n : LinkStep}

/-- `cpx_spi_init` sets up the group and no more; the bit of NINA may be set. -/
theorem cpxSpiInit_eq (rt : Runtime Unit Unit Unit (LinkPiTask Task)) (ninaRtt : Bool) :
    ∃ x, x.waitCtx = none ∧ x.mask.getLsbD 1 = false ∧ x.mask.getLsbD 2 = false ∧
      cpxSpiInit rt ninaRtt = rt.setGroup spiEvents x := by
  cases ninaRtt with
  | false => exact ⟨⟨0, none, 0, .any⟩, rfl, by decide, by decide, rfl⟩
  | true =>
    refine ⟨⟨0 ||| eventNinaRtt, none, 0, .any⟩, rfl, by decide, by decide, ?_⟩
    have halone : ((coEventGroupInit rt spiEvents).group spiEvents).waitCtx = none := by
      simp [coEventGroupInit]
    change coEventGroupSet (coEventGroupInit rt spiEvents) spiEvents eventNinaRtt = _
    rw [coEventGroupSet_alone halone]
    simp [coEventGroupInit, Runtime.setGroup, EventGroup.withMask]

/-- After `cpx_spi_start` the task is queued. -/
theorem LinkSystem.Started.inv (h : s.Started) :
    LinkInv .queued (fun _ => []) .start (link S R Task).init s := by
  obtain ⟨rt, ninaRtt, hrt, hstart⟩ := h.rt
  obtain ⟨x, hctx, hsend, hreceive, hx⟩ := cpxSpiInit_eq rt ninaRtt
  have hinit : Inv (fun _ => Home.idle) (fun _ => []) (rt.setGroup spiEvents x) :=
    hrt.inv.setGroup (hctx.trans (hrt.waitCtx spiEvents).symm) fun hne => absurd hctx hne
  obtain ⟨hok, hinv⟩ := hinit.pushStart (c := cpxSpiCtx) rfl cpxSpiTaskFn none
  rw [home_unit] at hinv
  rw [hx] at hstart
  have hrt' := Except.ok.inj (hok.symm.trans hstart)
  have hbit : ∀ i, s.bit i = x.mask.getLsbD i := by
    intro i
    rw [LinkSystem.bit, ← hrt']
    exact congrArg (fun g => g.mask.getLsbD i) (rt.setGroup_group spiEvents x)
  refine ⟨hrt' ▸ hinv, ?_, ⟨h.step, ?_, ⟨h.inFlight, ?_⟩, rfl⟩, trivial, ⟨?_, ?_⟩,
    ⟨h.sendReq, by simp [link], h.receiveReq, by simp [link], fun _ => rfl, by simp [Place.left],
      by simp⟩, ?_, ?_⟩
  · rw [← hrt']
    exact Function.update_self cpxSpiCtx cpxSpiTaskFn rt.fn
  · rw [← hrt']
    exact Function.update_self cpxSpiCtx .start rt.resumePoint
  · rw [← hrt']
    refine callbacks_pushResume.trans ?_
    change rt.queue.countP Pending.isCallback = 0
    rw [hrt.queue]
    rfl
  · rw [hbit, hsend, h.sendReq]
    rfl
  · rw [hbit, hreceive, h.receiveReq]
    rfl
  · rw [h.log]
    exact .init
  · simp [StartsReady, h.log]

/-! ## The measure

An edge of NINA is used up once in a round; on the way round the task comes nearer to
the step that uses it. -/

/-- How far a step is from step 8. -/
def LinkStep.rank : LinkStep → Nat
  | step1 => 20
  | step2 => 17
  | step3 => 14
  | step4 => 13
  | step5 => 10
  | step6 => 9
  | step7 => 5
  | step8 => 4
  | step9 => 30
  | step10 => 26
  | step11 => 22
  | step12 => 21

/-- How far a suspended context is from being resumed. -/
def distance : Home Unit Unit → Nat
  | .queued => 1
  | _ => 2

def Place.rank (home : Home Unit Unit) : Place → Nat
  | start => LinkStep.step1.rank + 1
  | group w => w.next.rank + distance home
  | phase p past => p.next.rank + if past then distance home else 3
  | step n => n.rank

def ahead (home : Home Unit Unit) (place : Place) (s : LinkSystem S R Task) : ℕ ×ₗ ℕ ×ₗ ℕ :=
  toLex (edges s, toLex (place.rank home, s.rt.queue.length))

theorem ahead_lt (hedges : edges t ≤ edges s)
    (h : place'.rank home' < place.rank home ∨
      place'.rank home' = place.rank home ∧ t.rt.queue.length < s.rt.queue.length) :
    ahead home' place' t < ahead home place s := by
  refine Prod.Lex.toLex_lt_toLex'.mpr ⟨hedges, fun _ => ?_⟩
  exact Prod.Lex.toLex_lt_toLex.mpr h

theorem rank_group (w : GroupWait) (home : Home Unit Unit) :
    (Place.group w).rank home ≤ w.next.rank + 2 := by
  refine Nat.add_le_add_left ?_ w.next.rank
  cases home with
  | queued => exact Nat.le_succ 1
  | _ => exact Nat.le_refl 2

theorem rank_phase (p : Phase) (past : Bool) :
    (Place.phase p past).rank (.event spiDone) ≤ p.next.rank + 3 := by
  refine Nat.add_le_add_left ?_ p.next.rank
  cases past with
  | true => exact Nat.le_succ 2
  | false => exact Nat.le_refl 3

namespace LinkInv

/-- With control the task is at its step. -/
theorem at_step (h : LinkInv home W place l s) {n : LinkStep} (hn : s.step = some n) :
    place = .step n ∧ home = .running := by
  have hnone : s.step ≠ none := by
    simp [hn]
  have hcontrol := h.control
  cases place with
  | start => exact absurd hcontrol.1 hnone
  | group w => exact absurd hcontrol.1 hnone
  | phase p past => cases past <;> exact absurd hcontrol.1 hnone
  | step n' =>
    obtain ⟨hn', hhome, -⟩ := hcontrol
    exact ⟨congrArg Place.step (Option.some.inj (hn'.symm.trans hn)), hhome⟩

/-- Who waits on the group is in one of the waits on it. -/
theorem group_place {g : Unit} (h : LinkInv (.group g) W place l s) : ∃ w, place = .group w := by
  have hctx : (s.rt.group spiEvents).waitCtx = some cpxSpiCtx := (h.rt.waitCtx g cpxSpiCtx).mpr rfl
  obtain ⟨w, hw, -⟩ := h.control.waiting h.rt (by simp [hctx])
  exact ⟨w, hw⟩

theorem next_rank (h : LinkInv .queued W place l s) :
    (Place.step place.next).rank .running < place.rank .queued := by
  cases place with
  | start => decide
  | group w => exact Nat.lt_succ_self w.next.rank
  | phase p past => exact Nat.lt_add_of_pos_right (by cases past <;> decide)
  | step n => cases h.control.2.1

theorem edges_rt (hrt : t.rt = s.rt) : edges t = edges s := by
  rw [edges, edges, LinkSystem.bit, LinkSystem.bit, hrt]

section
variable {p : Pending Unit Unit (LinkPiTask Task)}
  {q : List (Pending Unit Unit (LinkPiTask Task))} {c : List Unit}

theorem nina_resumes (q : List (Pending Unit Unit (LinkPiTask Task))) (c : List Unit) :
    (q ++ c.map Pending.resume).countP isNina = q.countP isNina := by
  have hnone : (c.map Pending.resume).countP
      (isNina : Pending Unit Unit (LinkPiTask Task) → Bool) = 0 := by
    rw [List.countP_map]
    exact List.countP_eq_zero.mpr fun _ _ => Bool.false_ne_true
  rw [List.countP_append, hnone, Nat.add_zero]

/-- Something other than NINA's task is taken from the queue, and contexts are queued. -/
theorem edges_taken (hq : s.rt.queue = p :: q) (hp : ¬ isNina p = true)
    (hq' : t.rt.queue = q ++ c.map .resume) (hgroup : t.rt.group = s.rt.group) :
    edges t = edges s := by
  rw [edges, edges, LinkSystem.bit, LinkSystem.bit, hgroup, hq, hq', nina_resumes,
    List.countP_cons_of_neg hp]

/-- NINA's task is taken; its edge is the bit from now on. -/
theorem edges_nina (hq : s.rt.queue = .task (.other .ninaRtt) :: q)
    (hq' : t.rt.queue = q ++ c.map .resume) : edges t ≤ edges s := by
  have hbit : (if t.bit 0 = true then 1 else 0) ≤ 1 := by split <;> decide
  rw [edges, edges, hq, hq', nina_resumes, List.countP_cons_of_pos (by rfl)]
  exact (Nat.add_le_add_left hbit _).trans (Nat.le_add_right _ _)

end

variable [DecidableEq R] (config : LinkConfig)

/-- The step of the task that has control brings it nearer to rest. -/
theorem task_step (h : LinkInv .running W (.step n) l s) :
    ∃ t home' W' place' l', cpxSpiTask config s n = .ok t ∧ LinkInv home' W' place' l' t ∧
      ahead home' place' t < ahead .running (.step n) s := by
  have hnear : ∀ {t : LinkSystem S R Task} {home' : Home Unit Unit} {place' : Place},
      edges t = edges s → place'.rank home' < n.rank →
        ahead home' place' t < ahead .running (.step n) s := fun he hr =>
    ahead_lt he.le (Or.inl hr)
  cases n with
  | step1 =>
    obtain ⟨t, home', hok, hinv, he⟩ := h.wait .anyone rfl fun _ hmet => hmet
    exact ⟨t, home', _, _, _, hok, hinv,
      hnear he (Nat.lt_of_le_of_lt (rank_group .anyone home') (by decide))⟩
  | step2 =>
    obtain ⟨t, home', hok, hinv, he⟩ := h.wait .receiver rfl fun _ hq => ⟨h.ready, hq⟩
    exact ⟨t, home', _, _, _, hok, hinv,
      hnear he (Nat.lt_of_le_of_lt (rank_group .receiver home') (by decide))⟩
  | step3 =>
    obtain ⟨t, hok, hinv, hrt⟩ := h.step3 config
    exact ⟨t, _, _, _, _, hok, hinv, hnear (edges_rt hrt) (by decide)⟩
  | step4 =>
    obtain ⟨t, home', hok, hinv, he⟩ :=
      h.wait .nina rfl fun _ hq => ⟨h.ready.1, h.ready.2, hq⟩
    exact ⟨t, home', _, _, _, hok, hinv,
      hnear he (Nat.lt_of_le_of_lt (rank_group .nina home') (by decide))⟩
  | step5 =>
    obtain ⟨t, hok, hinv, hrt⟩ := h.step5 config
    exact ⟨t, _, _, _, _, hok, hinv, hnear (edges_rt hrt) (by decide)⟩
  | step6 =>
    obtain ⟨t, past, _, _, hok, hinv, he⟩ := h.step6 config
    exact ⟨t, _, _, _, _, hok, hinv,
      hnear he (Nat.lt_of_le_of_lt (rank_phase .header past) (by decide))⟩
  | step7 =>
    obtain ⟨t, hok, hinv, hrt⟩ := h.step7 config
    exact ⟨t, _, _, _, _, hok, hinv, hnear (edges_rt hrt) (by decide)⟩
  | step8 =>
    obtain ⟨t, hok, hinv, he⟩ := h.step8 config
    exact ⟨t, _, _, _, _, hok, hinv, Prod.Lex.toLex_lt_toLex.mpr (Or.inl he)⟩
  | step9 =>
    obtain ⟨t, past, _, _, hok, hinv, he⟩ := h.step9 config
    exact ⟨t, _, _, _, _, hok, hinv,
      hnear he (Nat.lt_of_le_of_lt (rank_phase .head past) (by decide))⟩
  | step10 =>
    obtain ⟨t, past, _, _, hok, hinv, he⟩ := h.step10 config
    exact ⟨t, _, _, _, _, hok, hinv,
      hnear he (Nat.lt_of_le_of_lt (rank_phase .tail past) (by decide))⟩
  | step11 =>
    obtain ⟨t, _, hok, hinv, he⟩ := h.step11 config
    exact ⟨t, _, _, _, _, hok, hinv, hnear he (by decide)⟩
  | step12 =>
    obtain ⟨t, _, hok, hinv, he⟩ := h.step12 config
    exact ⟨t, _, _, _, _, hok, hinv, hnear he (by decide)⟩

/-- What the scheduler runs brings the task nearer to rest. -/
theorem schedule [DecidableEq S] (h : LinkInv home W place l s)
    (hqueue : s.rt.queue ≠ []) :
    ∃ t home' W' place', (LinkAction.schedule : LinkAction S R Task).run config s = .ok t ∧
      LinkInv home' W' place' l t ∧ ahead home' place' t < ahead home place s := by
  rw [LinkAction.run]
  cases hq : s.rt.queue with
  | nil => exact absurd hq hqueue
  | cons p q =>
    have hshorter : q.length < s.rt.queue.length := by
      rw [hq]
      exact Nat.lt_succ_self q.length
    cases p with
    | resume c =>
      obtain ⟨t, hok, hinv, rfl, hq', hgroup⟩ := h.resume hq
      have he := edges_taken (c := []) hq (by simp [isNina]) (hq'.trans (List.append_nil q).symm) hgroup
      exact ⟨t, _, _, _, hok, hinv, ahead_lt he.le (Or.inl h.next_rank)⟩
    | task x => cases x with
      | event e =>
        obtain ⟨rt, W', p, hok, hinv, rfl, rfl, hq', hgroup⟩ := h.callback hq
        have he := edges_taken (t := s.withRt rt) hq (by simp [isNina]) hq' hgroup
        refine ⟨s.withRt rt, _, _, _, ?_, hinv, ahead_lt he.le (Or.inl (Nat.lt_succ_self _))⟩
        change (do let rt ← coEventCallback (s.rt.dequeueEvent e q) e; _) = _
        rw [hok]
        rfl
      | other x => cases x with
        | user t =>
          have he := edges_taken (t := s.withRt (s.rt.dequeue q)) (c := []) hq
            (by simp [isNina])
            (List.append_nil q).symm rfl
          exact ⟨_, _, _, _, rfl, h.user hq, ahead_lt he.le (Or.inr ⟨rfl, hshorter⟩)⟩
        | ninaRtt =>
          obtain ⟨home', hinv, ⟨rfl, hq'⟩ | ⟨rfl, rfl, hq'⟩⟩ := h.nina hq
          · have he := edges_nina (t := s.withRt (ninaRttCallback (s.rt.dequeue q))) (c := []) hq
              (hq'.trans (List.append_nil q).symm)
            refine ⟨_, _, _, _, rfl, hinv, ahead_lt he (Or.inr ⟨rfl, ?_⟩)⟩
            exact lt_of_eq_of_lt (congrArg List.length hq') hshorter
          · have he := edges_nina (t := s.withRt (ninaRttCallback (s.rt.dequeue q)))
              (c := [cpxSpiCtx]) hq hq'
            obtain ⟨w, rfl⟩ := h.group_place
            exact ⟨_, _, _, _, rfl, hinv, ahead_lt he (Or.inl (Nat.lt_succ_self _))⟩

/-- The end of the transfer in flight does. -/
theorem ended (h : LinkInv home W place l s) (hflight : s.inFlight ≠ none)
    (header : CpxSpiHeader) :
    ∃ place' l', LinkInv home W place' l' (endTransfer s header) ∧
      ahead home place' (endTransfer s header) < ahead home place s := by
  obtain ⟨p, l', rfl, hinv⟩ := h.complete hflight header
  obtain ⟨-, -, -, -, rfl, -⟩ := h.control
  obtain ⟨x, hx⟩ := Option.ne_none_iff_exists'.mp hflight
  refine ⟨_, l', hinv, ahead_lt (Nat.le_of_eq ?_) (Or.inl (Nat.lt_succ_self _))⟩
  obtain ⟨f, hf⟩ := storeReceived_eq s header x.1
  rw [endTransfer, hx]
  simp only [hf]
  exact edges_congr (q := [.task (.event spiDone)]) rfl rfl rfl

end LinkInv

/-- The steps in which neither a user nor NINA takes part. -/
def LinkAction.Own : LinkAction S R Task → Prop
  | send _ _ _ => False
  | receive _ _ _ => False
  | edge => False
  | complete _ => True
  | push _ => False
  | schedule => True
  | step => True

section
variable [DecidableEq S] [DecidableEq R] {config : LinkConfig}

/-- Whatever may happen succeeds and keeps the invariant. -/
theorem LinkInv.run (config : LinkConfig) (h : LinkInv home W place l s) {a : LinkAction S R Task} (ha : a.Enabled s) :
    ∃ t home' W' place' l', a.run config s = .ok t ∧ LinkInv home' W' place' l' t ∧
      (a.Own → ahead home' place' t < ahead home place s) := by
  cases a with
  | send req object doneTask =>
    obtain ⟨t, home', hok, hinv⟩ := h.send config ha.1 ha.2 req object doneTask
    exact ⟨t, home', _, _, _, hok, hinv, False.elim⟩
  | receive req object doneTask =>
    obtain ⟨t, home', hok, hinv⟩ :=
      h.receive config ha.1 ha.2.1 req ha.2.2 doneTask
    exact ⟨t, home', _, _, _, hok, hinv, False.elim⟩
  | edge => exact ⟨_, _, _, _, _, rfl, h.pushOther .ninaRtt, False.elim⟩
  | complete header =>
    obtain ⟨place', l', hinv, hlt⟩ := h.ended ha header
    exact ⟨_, _, _, _, _, rfl, hinv, fun _ => hlt⟩
  | push t => exact ⟨_, _, _, _, _, rfl, h.pushOther (.user t), False.elim⟩
  | schedule =>
    obtain ⟨t, home', W', place', hok, hinv, hlt⟩ := h.schedule config ha.2
    exact ⟨t, home', W', place', l, hok, hinv, fun _ => hlt⟩
  | step =>
    obtain ⟨n, hn⟩ := Option.ne_none_iff_exists'.mp ha
    obtain ⟨rfl, rfl⟩ := h.at_step hn
    obtain ⟨t, home', W', place', l', hok, hinv, hlt⟩ := h.task_step config
    refine ⟨t, home', W', place', l', ?_, hinv, fun _ => hlt⟩
    rw [LinkAction.run, hn]
    exact hok

theorem reachable_linkInv (h : (linkSystem S R Task config).Reachable s) :
    ∃ home W place l, LinkInv home W place l s := by
  refine h.invariant (P := fun s => ∃ home W place l, LinkInv home W place l s)
    (fun _ hs => ⟨_, _, _, _, hs.inv⟩) ?_
  rintro s t ⟨home, W, place, l, hs⟩ ⟨a, ha, hok⟩
  obtain ⟨t', home', W', place', l', hok', hinv, -⟩ := hs.run config ha
  obtain rfl := Except.ok.inj (hok'.symm.trans hok)
  exact ⟨home', W', place', l', hinv⟩

/-! ## At rest -/

/-- The task has no control, nothing is pending and nothing in flight. -/
structure LinkSystem.AtRest (s : LinkSystem S R Task) : Prop where
  step : s.step = none
  queue : s.rt.queue = []
  inFlight : s.inFlight = none

omit [DecidableEq S] [DecidableEq R] in
/-- At rest the task is in a wait on the group, for bits that are not set. -/
theorem LinkInv.waits (h : LinkInv home W place l s) (hrest : s.AtRest) :
    ∃ w, place = .group w ∧ ¬ w.Met s := by
  have hqueued : home ≠ .queued := by
    intro hq
    have hm := (h.rt.queued cpxSpiCtx).mpr hq
    rw [Runtime.resuming, hrest.queue] at hm
    cases hm
  have hcontrol := h.control
  cases place with
  | start => exact absurd hcontrol.2.2.2 hqueued
  | group w =>
    obtain ⟨-, -, -, hq | ⟨rfl, hmask, hmode⟩⟩ := hcontrol
    · exact absurd hq hqueued
    · refine ⟨w, rfl, fun hmet => ?_⟩
      have hclosed := h.rt.closed spiEvents cpxSpiCtx ((h.rt.waitCtx spiEvents cpxSpiCtx).mpr rfl)
      rw [hmask, hmode, (test_iff s w).mpr hmet] at hclosed
      cases hclosed
  | phase p past => cases past with
    | false =>
      obtain ⟨-, -, ⟨x, hx⟩, -⟩ := hcontrol
      rw [hrest.inFlight] at hx
      cases hx
    | true =>
      obtain ⟨-, -, -, ⟨hq, -⟩ | ⟨-, hc, -⟩⟩ := hcontrol
      · exact absurd hq hqueued
      · rw [callbacks, hrest.queue] at hc
        cases hc
  | step n => exact absurd (hcontrol.1.symm.trans hrest.step) (by simp)

end

end

end AiDeck.Cpx
