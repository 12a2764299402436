import AiDeck.Coroutine.WakeUp
import AiDeck.Cpx.SendTurns

/-! # One send at a time

Every step keeps the invariant of sending, so no assertion is reached and each request
goes through its life once. The steps the callers do not take part in come to an end,
and where they do every request has been served. -/
namespace AiDeck.Cpx
open AiDeck.Coroutine AiDeck.Lib

section
variable {Req Task : Type} [DecidableEq Req]

/-- What one step does to a state whose waiting list is `W`, and the list behind it. -/
inductive SendStep (W : Unit → List Req) (s : SendSystem Req Task) :
    SendAction Req Task → SendSystem Req Task → (Unit → List Req) → Prop
  | call (r : Req) (doneTask : Option Task) (htrace : s.trace r = []) :
    SendStep W s (.call r doneTask) (calledWith s r doneTask) W
  | complete (hreq : s.cpxSpi.sendReq ≠ none) : SendStep W s .complete (spiComplete s) W
  | push (x : Task) : SendStep W s (.push x) (s.withRt (piTaskPush s.rt (.other x))) W
  | other {x : Task} {q} (hq : s.rt.queue = .task (.other x) :: q) :
    SendStep W s .schedule (s.withRt (s.rt.dequeue q)) W
  | callback {q} (lists : Lists Unit Req) (hq : s.rt.queue = .task (.event sendDone) :: q) :
    SendStep W s .schedule
      (s.withRt ((s.rt.dequeueEvent sendDone q).resumeAll lists (W sendDone)))
      (Function.update W sendDone [])
  | turn {r : Req} {q} (lists : Lists Unit Req) (hq : s.rt.queue = .resume r :: q)
    (hline : s.rt.resumePoint r ≠ .line lineSent) (hdone : s.rt.eventDone sendDone = false) :
    SendStep W s .schedule (turned s q r lists)
      (Function.update W sendDone (W sendDone ++ [r]))
  | hand {r : Req} {q} (lists : Lists Unit Req) (hq : s.rt.queue = .resume r :: q)
    (hline : s.rt.resumePoint r ≠ .line lineSent) (hdone : s.rt.eventDone sendDone = true) :
    SendStep W s .schedule (handedOver s q r lists)
      (Function.update W sendDone (W sendDone ++ [r]))
  | finish {r : Req} {q} (hq : s.rt.queue = .resume r :: q)
    (hline : s.rt.resumePoint r = .line lineSent) :
    SendStep W s .schedule (sendTaskEnd (s.withRt (begun s q r)) r) W

variable [Fintype Req] {s : SendSystem Req Task} {home : Req → Home Unit Unit}
  {W W' : Unit → List Req}

/-- A pending send task runs to its next suspension or to its end. -/
theorem task_cases (h : SendInv home W s) {r : Req} {q : List (Pending Req Unit Task)}
    (hq : s.rt.queue = .resume r :: q) : ∃ t home' W',
      cpxSendTask (s.withRt (s.rt.dequeue q)) r = .ok t ∧ SendStep W s .schedule t W' ∧
        SendInv home' W' t := by
  obtain ⟨hbegin, -⟩ := begin_inv h hq
  have htask : cpxSendTask (s.withRt (s.rt.dequeue q)) r =
      if s.rt.resumePoint r = .line lineSent then
        .ok (sendTaskEnd (s.withRt (begun s q r)) r)
      else sendTaskTurn (s.withRt (begun s q r)) r := cpxSendTask_eq hbegin
  rw [htask]
  by_cases hline : s.rt.resumePoint r = .line lineSent
  · rw [if_pos hline]
    exact ⟨_, _, _, rfl, .finish hq hline, end_inv h hq hline⟩
  · rw [if_neg hline]
    cases hdone : s.rt.eventDone sendDone with
    | false =>
      obtain ⟨lists, hok, hinv⟩ := turn_inv h hq hline hdone
      exact ⟨_, _, _, hok, .turn lists hq hline hdone, hinv⟩
    | true =>
      obtain ⟨lists, hok, hinv⟩ := hand_inv h hq hline hdone
      exact ⟨_, _, _, hok, .hand lists hq hline hdone, hinv⟩

/-- Every enabled action succeeds and keeps the invariant. -/
theorem step_cases (h : SendInv home W s) {a : SendAction Req Task} (ha : a.Enabled s) :
    ∃ t home' W', a.run s = .ok t ∧ SendStep W s a t W' ∧ SendInv home' W' t := by
  cases a with
  | call r doneTask =>
    obtain ⟨hok, hinv⟩ := call_inv h ha doneTask
    exact ⟨_, _, _, hok, .call r doneTask ha, hinv⟩
  | complete => exact ⟨_, _, _, rfl, .complete ha, complete_inv h ha⟩
  | push x => exact ⟨_, _, _, rfl, .push x, push_inv h x⟩
  | schedule =>
    cases hq : s.rt.queue with
    | nil => exact absurd hq ha
    | cons p q =>
      rw [SendAction.run, hq]
      cases p with
      | resume r => exact task_cases h hq
      | task x => cases x with
        | event e =>
          obtain ⟨lists, hok, hinv⟩ := callback_inv h hq
          refine ⟨_, _, _, ?_, .callback lists hq, hinv⟩
          change (do let rt ← coEventCallback (s.rt.dequeueEvent e q) e; _) = _
          rw [hok]
          rfl
        | other x => exact ⟨_, _, _, rfl, .other hq, other_inv h hq⟩

omit [DecidableEq Req] [Fintype Req] in
/-- After `cpx_start` the turn is on its way. -/
theorem SendSystem.Started.inv (h : s.Started) : SendInv (fun _ => .idle) (fun _ => []) s := by
  obtain ⟨rt, hrt, heq⟩ := h.rt
  have hinv : Inv (fun _ => Home.idle) (fun _ => []) s.rt := by
    rw [heq]
    exact (hrt.inv.eventInit (hrt.first sendDone)).push _
  refine ⟨hinv, by simp, ?_, .passing ?_ h.sendReq ?_, fun r _ => ⟨?_, Or.inl ⟨?_, h.trace r, ?_⟩⟩,
    fun r hne => absurd rfl hne⟩
  · rw [heq]
    exact hrt.waitCtx linkEvents
  · rw [heq]
    exact Function.update_self sendDone false rt.eventDone
  · rw [callbacks, heq, cpxStart, piTaskPush]
    change (rt.queue ++ [_]).countP Pending.isCallback = 1
    rw [hrt.queue]
    rfl
  · simp [h.sendReq]
  · rw [heq]
    exact hrt.resumePoint r
  · rw [heq]
    exact hrt.returns r

theorem reachable_sendInv (h : (sendSystem Req Task).Reachable s) : ∃ home W, SendInv home W s := by
  refine h.invariant (P := fun s => ∃ home W, SendInv home W s) (fun _ hs => ⟨_, _, hs.inv⟩) ?_
  rintro s t ⟨home, W, hs⟩ ⟨a, ha, hrun⟩
  obtain ⟨t', home', W', hok, -, ht⟩ := step_cases hs ha
  obtain rfl := Except.ok.inj (hok.symm.trans hrun)
  exact ⟨home', W', ht⟩

/-! ## The steps come to an end

A hand-over leaves fewer requests to hand over, the turn comes back from the link to
the event, and what is left of the queue gets less. -/

/-- The requests that have been called and not handed over. -/
def unhanded (s : SendSystem Req Task) : Finset Req := {r | s.trace r = [.called]}

/-- How far the turn is from being free. -/
def phase (s : SendSystem Req Task) : Nat :=
  if s.cpxSpi.sendReq = none then if s.rt.eventDone sendDone = true then 0 else 1 else 2

def weight : Pending Req Unit Task → Nat
  | .resume _ => 2
  | .task _ => 1

def work (s : SendSystem Req Task) : Nat := (s.rt.queue.map weight).sum

def remaining (s : SendSystem Req Task) : ℕ ×ₗ ℕ ×ₗ ℕ :=
  toLex ((unhanded s).card, toLex (phase s, work s))

/-- The steps in which no caller takes part. -/
def SendAction.Own : SendAction Req Task → Prop
  | call _ _ => False
  | complete => True
  | push _ => False
  | schedule => True

def Serves (s t : SendSystem Req Task) : Prop :=
  ∃ a : SendAction Req Task, a.Own ∧ a.Enabled s ∧ a.run s = .ok t

variable {t : SendSystem Req Task}

omit [DecidableEq Req] in
theorem unhanded_subset (h : ∀ r, t.trace r = [.called] → s.trace r = [.called]) :
    unhanded t ⊆ unhanded s := by
  intro r hr
  rw [unhanded, Finset.mem_filter] at hr ⊢
  exact ⟨hr.1, h r hr.2⟩

omit [DecidableEq Req] in
/-- The turn comes nearer or the queue gets less, with nobody called meanwhile. -/
theorem remaining_lt (h : ∀ r, t.trace r = [.called] → s.trace r = [.called])
    (hless : phase t < phase s ∨ phase t = phase s ∧ work t < work s) :
    remaining t < remaining s := by
  refine Prod.Lex.toLex_lt_toLex'.mpr ⟨Finset.card_le_card (unhanded_subset h), fun _ => ?_⟩
  exact Prod.Lex.toLex_lt_toLex.mpr hless

omit [Fintype Req] in
/-- A later stage makes nobody wait for the link. -/
theorem stage_called {r d : Req} {x : Stage} (hx : x ≠ .called)
    (h : (s.stage r x).trace d = [.called]) : s.trace d = [.called] := by
  by_cases hd : d = r
  · subst hd
    have hlast : s.trace d ++ [x] = [] ++ [.called] :=
      (Function.update_self d _ s.trace).symm.trans h
    exact absurd (List.cons.inj (List.append_inj_right' hlast rfl)).1 hx
  · exact (Function.update_of_ne hd ..).symm.trans h

omit [DecidableEq Req] [Fintype Req] in
theorem phase_congr (hreq : t.cpxSpi.sendReq = s.cpxSpi.sendReq)
    (hdone : t.rt.eventDone = s.rt.eventDone) : phase t = phase s := by
  rw [phase, phase, hreq, hdone]

omit [DecidableEq Req] [Fintype Req] in
theorem phase_lt_two (h : s.cpxSpi.sendReq = none) : phase s < 2 := by
  rw [phase, if_pos h]
  split <;> decide

omit [DecidableEq Req] [Fintype Req] in
theorem phase_free (h : s.cpxSpi.sendReq = none) (hdone : s.rt.eventDone sendDone = true) :
    phase s = 0 := by
  rw [phase, if_pos h, if_pos hdone]

omit [DecidableEq Req] [Fintype Req] in
theorem work_head {p : Pending Req Unit Task} {q : List (Pending Req Unit Task)}
    (hq : s.rt.queue = p :: q) : work s = weight p + (q.map weight).sum := by
  rw [work, hq, List.map_cons, List.sum_cons]

/-- The steps in which no caller takes part leave less to do. -/
theorem own_lt {a : SendAction Req Task} (h : SendInv home W s) (hown : a.Own)
    (hstep : SendStep W s a t W') : remaining t < remaining s := by
  cases hstep with
  | call r doneTask htrace => cases hown
  | push x => cases hown
  | complete hreq =>
    cases h.turn with
    | free _ hr _ => exact absurd hr hreq
    | passing _ hr _ => exact absurd hr hreq
    | taken r _ hr hs _ _ _ =>
      have hphase : phase s = 2 := if_neg hreq
      rw [spiComplete, hr, hs]
      refine remaining_lt (fun d => stage_called (r := r) (by simp)) (Or.inl ?_)
      rw [hphase]
      exact phase_lt_two rfl
  | other hq =>
    refine remaining_lt (fun r hr => hr) (Or.inr ⟨rfl, ?_⟩)
    rw [work_head hq]
    exact Nat.lt_add_of_pos_left Nat.zero_lt_one
  | callback lists hq =>
    refine remaining_lt (fun r hr => hr) (Or.inl ?_)
    cases h.turn with
    | free _ _ hc =>
      rw [callbacks, hq, List.countP_cons_of_pos (by rfl)] at hc
      cases hc
    | passing hd hr _ =>
      have hphase : phase s = 1 := by
        rw [phase, if_pos hr, if_neg (by simp [hd])]
      rw [hphase]
      refine lt_of_eq_of_lt (phase_free hr ?_) Nat.zero_lt_one
      exact Function.update_self sendDone true s.rt.eventDone
    | taken _ _ _ _ hc _ _ =>
      rw [callbacks, hq, List.countP_cons_of_pos (by rfl)] at hc
      cases hc
  | @turn r q lists hq hline hdone =>
    obtain ⟨-, -, hevent, -, hqueue, -, -⟩ := begun_fields s q r
    refine remaining_lt (fun d hd => hd) (Or.inr ⟨phase_congr rfl hevent, ?_⟩)
    rw [work_head hq]
    change ((begun s q r).queue.map weight).sum < _
    rw [hqueue]
    exact Nat.lt_add_of_pos_left Nat.zero_lt_two
  | @hand r q lists hq hline hdone =>
    obtain ⟨-, -, hqueued, -, -⟩ := begin_inv h hq
    have hcalled := (h.called r (by simp [hqueued])).before hline
    refine Prod.Lex.toLex_lt_toLex.mpr (Or.inl (Finset.card_lt_card ⟨?_, fun hsub => ?_⟩))
    · exact unhanded_subset fun d => stage_called (r := r) (by simp)
    · have hr := hsub (Finset.mem_filter.mpr ⟨Finset.mem_univ r, hcalled⟩)
      have hlast : Function.update s.trace r (s.trace r ++ [.handed]) r = [.called] :=
        (Finset.mem_filter.mp hr).2
      rw [Function.update_self, hcalled] at hlast
      cases hlast
  | @finish r q hq hline =>
    obtain ⟨-, -, hevent, -, hqueue, -, -⟩ := begun_fields s q r
    refine remaining_lt (fun d => stage_called (r := r) (by simp)) (Or.inr ⟨phase_congr rfl ?_, ?_⟩)
    · change (coReturn (begun s q r) r).eventDone = _
      rw [coReturn_eq, hevent]
    · rw [work_head hq]
      change ((coReturn (begun s q r) r).queue.map weight).sum < _
      rw [coReturn_eq, hqueue]
      cases (begun s q r).doneTask r with
      | none => simp [weight]
      | some x => simp [weight]; omega

/-! ## The results -/

/-- What sending guarantees in a state. -/
structure Serialised (s : SendSystem Req Task) : Prop where
  /-- No call, no transfer and no task fails: the link never has two requests. -/
  goesOn : ∀ a : SendAction Req Task, a.Enabled s → ∃ t, a.run s = .ok t
  /-- A request is handed over once, then its transfer ends, then it is done. -/
  inOrder : ∀ r, s.trace r <+: life
  /-- The `done_task` of the call is handed on once, at the end of that life. -/
  doneOnce : ∀ r, (s.rt.starts r).length ≤ 1 ∧
    s.rt.returns r = if s.trace r = life then s.rt.starts r else []
  /-- With no task pending and no transfer in progress nobody waits for the turn. -/
  quiet : s.rt.queue = [] → s.cpxSpi.sendReq = none →
    ∀ r, s.rt.resumePoint r ≠ .line lineTurn ∧ (s.trace r = [] ∨ s.trace r = life)
  /-- Pending tasks and transfers come to an end. -/
  ends : Acc (fun t s => Serves s t) s

theorem SendInv.acc (h : SendInv home W s) : Acc (fun t s => Serves s t) s := by
  refine acc_of_decreasing (P := fun d s => SendInv d.1 d.2 s) (fun _ => remaining) ?_
    (d := (home, W)) h
  rintro ⟨home, W⟩ s t hs ⟨a, hown, ha, hrun⟩
  obtain ⟨t', home', W', hok, hstep, ht⟩ := step_cases hs ha
  obtain rfl := Except.ok.inj (hok.symm.trans hrun)
  exact ⟨(home', W'), ht, own_lt hs hown hstep⟩

omit [DecidableEq Req] [Fintype Req] in
theorem SendInv.idle_of_quiet (h : SendInv home W s) (hq : s.rt.queue = [])
    (hreq : s.cpxSpi.sendReq = none) (r : Req) : home r = .idle := by
  have hdone : s.rt.eventDone sendDone = true := by
    cases h.turn with
    | free hd _ _ => exact hd
    | passing _ _ hc => rw [callbacks, hq] at hc; cases hc
    | taken _ _ hr _ _ _ _ => rw [hreq] at hr; cases hr
  cases hr : home r with
  | idle => rfl
  | running => exact absurd hr (h.calm r)
  | queued =>
    have hm := (h.rt.queued r).mpr hr
    rw [Runtime.resuming, hq] at hm
    cases hm
  | event e =>
    have hm := (h.rt.waiting e r).mpr hr
    rw [h.rt.woken e hdone] at hm
    cases hm
  | group g =>
    have hctx := (h.rt.waitCtx g r).mpr hr
    rw [h.alone] at hctx
    cases hctx

theorem SendInv.serialised (h : SendInv home W s) : Serialised s where
  goesOn a ha := by
    obtain ⟨t, _, _, hok, -, -⟩ := step_cases h ha
    exact ⟨t, hok⟩
  inOrder r := by
    by_cases hr : home r = .idle
    · obtain ⟨-, ⟨-, ht, -⟩ | ⟨-, ht, -⟩⟩ := h.atRest r hr
      · rw [ht]; exact List.nil_prefix
      · rw [ht]
    · rcases (h.called r hr).stage with ⟨-, -, ht⟩ | ⟨-, ⟨-, ht⟩ | ⟨-, ht⟩⟩
      · rw [ht]; exact ⟨[.handed, .spiDone, .donePushed], rfl⟩
      · rw [ht]; exact ⟨[.spiDone, .donePushed], rfl⟩
      · rw [ht]; exact ⟨[.donePushed], rfl⟩
  doneOnce r := by
    have hl := h.rt.fields r
    by_cases hr : home r = .idle
    · rw [hr] at hl
      obtain ⟨-, -, hstarts⟩ := hl
      obtain ⟨-, ⟨-, ht, hret⟩ | ⟨-, ht, hret⟩⟩ := h.atRest r hr
      · rw [hstarts, ht, hret]
        exact ⟨Nat.zero_le 1, (if_neg (by decide)).symm⟩
      · rw [hstarts, ht, if_pos rfl]
        exact ⟨Nat.le_of_eq hret, rfl⟩
    · have hcalled := h.called r hr
      have hout : Outstanding s.rt r := hl.outstanding hr
      have hlive : s.trace r ≠ life := by
        rcases hcalled.stage with ⟨-, -, ht⟩ | ⟨-, ⟨-, ht⟩ | ⟨-, ht⟩⟩ <;> rw [ht] <;> decide
      rw [hout, hcalled.returns, if_neg hlive]
      exact ⟨Nat.le_refl 1, rfl⟩
  quiet hq hreq r := by
    obtain ⟨-, ⟨hp, ht, -⟩ | ⟨hp, ht, -⟩⟩ := h.atRest r (h.idle_of_quiet hq hreq r)
    · rw [hp]; exact ⟨by simp, Or.inl ht⟩
    · rw [hp]; exact ⟨by simp, Or.inr ht⟩
  ends := h.acc

/-- **One send at a time.** In every reachable state no assertion is ahead, each request
has gone through a part of its life in order, and where no task is pending and no
transfer in progress, nobody waits for the turn; every run gets there. -/
theorem reachable_serialised (h : (sendSystem Req Task).Reachable s) : Serialised s := by
  obtain ⟨home, W, hs⟩ := reachable_sendInv h
  exact hs.serialised

/-- The second request waits for its turn. -/
theorem reachable_serialised_contended : ∃ s : SendSystem (Fin 2) Unit,
    (sendSystem (Fin 2) Unit).Reachable s ∧ s.rt.resumePoint 1 = .line lineTurn ∧ Serialised s := by
  have hrun : ((SendSystem.fresh : SendSystem (Fin 2) Unit).follow
      [.schedule, .call 0 none, .schedule, .call 1 none, .schedule]).map
        (fun s => s.rt.resumePoint 1) = some (.line lineTurn) := by decide
  obtain ⟨s, hs, hpoint⟩ := Option.map_eq_some_iff.mp hrun
  have hreach := SendSystem.follow_reachable (.init SendSystem.fresh_started) hs
  exact ⟨s, hreach, hpoint, reachable_serialised hreach⟩

end

end AiDeck.Cpx
