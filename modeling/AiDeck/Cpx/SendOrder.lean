import AiDeck.Cpx.SendSerial

/-! # First come, first served

A request called between the push of `send_done` and its callback tests the event after
that callback and before the requests it woke. Without such a request the hand-overs
follow the calls. -/
namespace AiDeck.Cpx
open AiDeck.Coroutine AiDeck.Lib

section
variable {Req Task : Type}

/-- The requests of a list that have not come to the wait for their transfer. -/
def contenders (s : SendSystem Req Task) (l : List Req) : List Req :=
  l.filter fun r => s.rt.resumePoint r ≠ .line lineSent

/-- The requests on the list of `send_done`. -/
def OnList (s : SendSystem Req Task) (l : List Req) : Prop :=
  Chain s.rt.lists.next (s.rt.lists.first sendDone) l

/-- The callback of `send_done` is next while one request waits for its turn and the task
of another one that has not been handed over is pending. -/
def Overtaking (s : SendSystem Req Task) : Prop :=
  (∃ q, s.rt.queue = .task (.event sendDone) :: q) ∧
    (∃ l, OnList s l ∧ contenders s l ≠ []) ∧ contenders s s.rt.resuming ≠ []

/-- The calls are the hand-overs, the requests that wait for their turn and the pending
ones, in this order. -/
def InOrder (W : Unit → List Req) (s : SendSystem Req Task) : Prop :=
  s.calls = s.handed ++ contenders s (W sendDone) ++ contenders s s.rt.resuming

variable {s t : SendSystem Req Task} {W W' : Unit → List Req} {home : Req → Home Unit Unit}

theorem contenders_congr {l : List Req}
    (h : ∀ r ∈ l, t.rt.resumePoint r = s.rt.resumePoint r) : contenders t l = contenders s l := by
  refine List.filter_congr fun r hr => ?_
  rw [h r hr]

theorem contenders_append (l l' : List Req) :
    contenders s (l ++ l') = contenders s l ++ contenders s l' := List.filter_append ..

theorem contenders_cons {r : Req} (h : s.rt.resumePoint r ≠ .line lineSent) (l : List Req) :
    contenders s (r :: l) = r :: contenders s l := List.filter_cons_of_pos (decide_eq_true h)

theorem contenders_cons_sent {r : Req} (h : s.rt.resumePoint r = .line lineSent) (l : List Req) :
    contenders s (r :: l) = contenders s l := List.filter_cons_of_neg (by simp [h])

variable [DecidableEq Req] [Fintype Req]

/-- The system with the overtaking callbacks left out. -/
def orderlySystem (Req Task : Type) [DecidableEq Req] [Fintype Req] :
    Transition (SendSystem Req Task) where
  init := SendSystem.Started
  step s t := ∃ a : SendAction Req Task,
    a.Enabled s ∧ ¬ (a = .schedule ∧ Overtaking s) ∧ a.run s = .ok t

omit [DecidableEq Req] [Fintype Req] in
/-- The state before the resume of `r` is taken from the queue. -/
theorem pending_head (h : SendInv home W s) {r : Req} {q : List (Pending Req Unit Task)}
    (hq : s.rt.queue = .resume r :: q) :
    s.rt.resuming = r :: q.filterMap Pending.ctx? ∧ r ∉ q.filterMap Pending.ctx? ∧
      r ∉ W sendDone := by
  have hresuming : s.rt.resuming = r :: q.filterMap Pending.ctx? := by
    rw [Runtime.resuming, hq]
    rfl
  have honce := h.rt.once
  rw [hresuming, List.nodup_cons] at honce
  refine ⟨hresuming, honce.1, fun hm => ?_⟩
  have hqueued := (h.rt.queued r).mp (hresuming ▸ List.mem_cons_self)
  rw [(h.rt.waiting sendDone r).mp hm] at hqueued
  cases hqueued

/-! ## One step -/

section
omit [Fintype Req]

theorem call_inOrder (h : SendInv home W s) (ho : InOrder W s) {r : Req} (doneTask : Option Task)
    (htrace : s.trace r = []) : InOrder W (calledWith s r doneTask) := by
  obtain ⟨-, hafter⟩ := call_inv h htrace doneTask
  have hidle : home r = .idle := by
    by_contra hne
    rcases (h.called r hne).stage with ⟨-, -, hs⟩ | ⟨-, ⟨-, hs⟩ | ⟨-, hs⟩⟩ <;>
    · rw [htrace] at hs
      cases hs
  have hlist : ∀ d ∈ W sendDone, d ≠ r := by
    rintro d hd rfl
    rw [(h.rt.waiting sendDone d).mp hd] at hidle
    cases hidle
  have hpending : ∀ d ∈ s.rt.resuming, d ≠ r := by
    rintro d hd rfl
    rw [(h.rt.queued d).mp hd] at hidle
    cases hidle
  have hsame : ∀ d, d ≠ r →
      (calledWith s r doneTask).rt.resumePoint d = s.rt.resumePoint d :=
    fun d hd => Function.update_of_ne hd ..
  have hstart : (calledWith s r doneTask).rt.resumePoint r = .start := Function.update_self ..
  have hresuming : (calledWith s r doneTask).rt.resuming = s.rt.resuming ++ [r] :=
    resuming_pushResume
  rw [InOrder, hresuming, contenders_append, contenders_cons (by simp [hstart]),
    contenders_congr fun d hd => hsame d (hlist d hd),
    contenders_congr fun d hd => hsame d (hpending d hd), ← List.append_assoc]
  exact congrArg (· ++ [r]) ho

omit [DecidableEq Req] in
/-- No callback overtakes. -/
theorem callback_inOrder (h : SendInv home W s) (ho : InOrder W s) (hnot : ¬ Overtaking s)
    {q : List (Pending Req Unit Task)} (lists : Lists Unit Req)
    (hq : s.rt.queue = .task (.event sendDone) :: q) :
    InOrder (Function.update W sendDone [])
      (s.withRt ((s.rt.dequeueEvent sendDone q).resumeAll lists (W sendDone))) := by
  have hresuming : (s.withRt ((s.rt.dequeueEvent sendDone q).resumeAll lists
      (W sendDone))).rt.resuming = s.rt.resuming ++ W sendDone := by
    change (q ++ (W sendDone).map Pending.resume).filterMap Pending.ctx? = _
    rw [List.filterMap_append, List.filterMap_map, Runtime.resuming, hq]
    exact congrArg (q.filterMap Pending.ctx? ++ ·) List.filterMap_some
  -- no callback overtakes: the waiting or the pending contenders are none
  have hone : contenders s (W sendDone) = [] ∨ contenders s s.rt.resuming = [] := by
    by_contra hne
    rw [not_or] at hne
    exact hnot ⟨⟨q, hq⟩, ⟨_, h.rt.holds.chain sendDone, hne.1⟩, hne.2⟩
  rw [InOrder, hresuming, Function.update_self]
  change s.calls = s.handed ++ [] ++ contenders s (s.rt.resuming ++ W sendDone)
  rw [contenders_append, ho]
  rcases hone with hnone | hnone <;> simp [hnone]

variable {r : Req} {q : List (Pending Req Unit Task)}

theorem turn_inOrder (h : SendInv home W s) (ho : InOrder W s) (lists : Lists Unit Req)
    (hq : s.rt.queue = .resume r :: q) (hline : s.rt.resumePoint r ≠ .line lineSent) :
    InOrder (Function.update W sendDone (W sendDone ++ [r])) (turned s q r lists) := by
  obtain ⟨hresuming, hrest, hlist⟩ := pending_head h hq
  obtain ⟨-, -, -, -, hqueue, -, hpoint⟩ := begun_fields s q r
  have hsame : ∀ d, d ≠ r → (turned s q r lists).rt.resumePoint d = s.rt.resumePoint d :=
    fun d hd => (Function.update_of_ne hd ..).trans (hpoint d hd)
  have hturn : (turned s q r lists).rt.resumePoint r = .line lineTurn := Function.update_self ..
  have hafter : (turned s q r lists).rt.resuming = q.filterMap Pending.ctx? :=
    congrArg (List.filterMap Pending.ctx?) hqueue
  rw [InOrder, hresuming, contenders_cons hline] at ho
  rw [InOrder, hafter, Function.update_self, contenders_append,
    contenders_cons (by rw [hturn]; decide),
    contenders_congr fun d hd => hsame d fun he => hlist (he ▸ hd),
    contenders_congr fun d hd => hsame d fun he => hrest (he ▸ hd)]
  change s.calls = s.handed ++ _ ++ _
  rw [ho]
  simp [contenders]

theorem hand_inOrder (h : SendInv home W s) (ho : InOrder W s) (lists : Lists Unit Req)
    (hq : s.rt.queue = .resume r :: q) (hline : s.rt.resumePoint r ≠ .line lineSent)
    (hdone : s.rt.eventDone sendDone = true) :
    InOrder (Function.update W sendDone (W sendDone ++ [r])) (handedOver s q r lists) := by
  obtain ⟨hresuming, hrest, -⟩ := pending_head h hq
  obtain ⟨-, -, hqueue, -, -, -, hsame⟩ := handedOver_fields (q := q) (r := r) h.alone lists
  have hsent : (handedOver s q r lists).rt.resumePoint r = .line lineSent :=
    Function.update_self ..
  have hafter : (handedOver s q r lists).rt.resuming = q.filterMap Pending.ctx? := by
    rw [Runtime.resuming, hqueue]
  have hnone : W sendDone = [] := h.rt.woken sendDone hdone
  rw [InOrder, hresuming, hnone, contenders_cons hline] at ho
  rw [InOrder, hafter, Function.update_self, hnone, List.nil_append, contenders_cons_sent hsent,
    contenders_congr fun d hd => hsame d fun he => hrest (he ▸ hd)]
  change s.calls = s.handed ++ [r] ++ [] ++ _
  rw [ho]
  simp [contenders]

theorem finish_inOrder (h : SendInv home W s) (ho : InOrder W s)
    (hq : s.rt.queue = .resume r :: q) (hline : s.rt.resumePoint r = .line lineSent) :
    InOrder W (sendTaskEnd (s.withRt (begun s q r)) r) := by
  obtain ⟨hresuming, hrest, hlist⟩ := pending_head h hq
  obtain ⟨-, -, -, -, hqueue, -, hpoint⟩ := begun_fields s q r
  have hsame : ∀ d, d ≠ r →
      (sendTaskEnd (s.withRt (begun s q r)) r).rt.resumePoint d = s.rt.resumePoint d := by
    intro d hd
    change (coReturn (begun s q r) r).resumePoint d = _
    rw [coReturn_eq]
    exact (Function.update_of_ne hd ..).trans (hpoint d hd)
  have hafter : (sendTaskEnd (s.withRt (begun s q r)) r).rt.resuming =
      q.filterMap Pending.ctx? := by
    change ((coReturn (begun s q r) r).queue).filterMap Pending.ctx? = _
    rw [coReturn_eq, hqueue, List.filterMap_append]
    cases (begun s q r).doneTask r with
    | none => exact List.append_nil _
    | some x => exact List.append_nil _
  rw [InOrder, hresuming, contenders_cons_sent hline] at ho
  rw [InOrder, hafter, contenders_congr fun d hd => hsame d fun he => hlist (he ▸ hd),
    contenders_congr fun d hd => hsame d fun he => hrest (he ▸ hd)]
  exact ho

theorem step_inOrder {a : SendAction Req Task} (h : SendInv home W s) (ho : InOrder W s)
    (hnot : ¬ (a = .schedule ∧ Overtaking s)) (hstep : SendStep W s a t W') : InOrder W' t := by
  cases hstep with
  | call r doneTask htrace => exact call_inOrder h ho doneTask htrace
  | complete hreq =>
    cases h.turn with
    | free _ hr _ => exact absurd hr hreq
    | passing _ hr _ => exact absurd hr hreq
    | taken r _ hr hs _ _ _ =>
      have hresuming : (spiComplete s).rt.resuming = s.rt.resuming := by
        rw [spiComplete, hr, hs]
        exact resuming_push _
      rw [InOrder, hresuming, spiComplete, hr, hs]
      exact ho
  | push x =>
    have hresuming : (s.withRt (piTaskPush s.rt (.other x))).rt.resuming = s.rt.resuming :=
      resuming_push _
    rw [InOrder, hresuming]
    exact ho
  | @other x q hq =>
    have hresuming : (s.withRt (s.rt.dequeue q)).rt.resuming = s.rt.resuming := by
      rw [Runtime.resuming, Runtime.resuming, hq]
      rfl
    rw [InOrder, hresuming]
    exact ho
  | callback lists hq => exact callback_inOrder h ho (fun ho => hnot ⟨rfl, ho⟩) lists hq
  | turn lists hq hline hdone => exact turn_inOrder h ho lists hq hline
  | hand lists hq hline hdone => exact hand_inOrder h ho lists hq hline hdone
  | finish hq hline => exact finish_inOrder h ho hq hline

end

theorem reachable_inOrder (h : (orderlySystem Req Task).Reachable s) :
    ∃ home W, SendInv home W s ∧ InOrder W s := by
  refine h.invariant (P := fun s => ∃ home W, SendInv home W s ∧ InOrder W s) ?_ ?_
  · intro s hs
    refine ⟨_, _, hs.inv, ?_⟩
    obtain ⟨rt, hrt, heq⟩ := hs.rt
    have hresuming : s.rt.resuming = [] := by
      rw [heq, cpxStart, resuming_push]
      change rt.queue.filterMap Pending.ctx? = []
      rw [hrt.queue]
      rfl
    rw [InOrder, hresuming, hs.calls, hs.handed]
    rfl
  · rintro s t ⟨home, W, hs, ho⟩ ⟨a, ha, hnot, hrun⟩
    obtain ⟨t', home', W', hok, hstep, ht⟩ := step_cases hs ha
    obtain rfl := Except.ok.inj (hok.symm.trans hrun)
    exact ⟨home', W', ht, step_inOrder hs ho hnot hstep⟩

/-- **First come, first served.** In every run without an overtaking callback the requests
are handed to the link in the order of the calls of `cpx_send_async`. -/
theorem orderly_handed (h : (orderlySystem Req Task).Reachable s) : s.handed <+: s.calls := by
  obtain ⟨_, W, -, ho⟩ := reachable_inOrder h
  rw [ho, List.append_assoc]
  exact List.prefix_append _ _

omit [DecidableEq Req] [Fintype Req] in
/-- A request that goes on overtakes nobody. -/
theorem not_overtaking {a : SendAction Req Task} {r : Req} {q : List (Pending Req Unit Task)}
    (hq : s.rt.queue = .resume r :: q) : ¬ (a = .schedule ∧ Overtaking s) := by
  rintro ⟨-, ⟨q', hq'⟩, -⟩
  rw [hq] at hq'
  cases hq'

/-- Two requests contend and the first is with the link. -/
theorem orderly_handed_contended : ∃ s : SendSystem (Fin 2) Unit,
    (orderlySystem (Fin 2) Unit).Reachable s ∧ s.calls = [0, 1] ∧ s.handed <+: s.calls := by
  have hstart : (orderlySystem (Fin 2) Unit).Reachable .fresh := .init SendSystem.fresh_started
  have hfree := hstart.step ⟨.schedule, by decide, fun h => h.2.2.2 rfl, rfl⟩
  have hfirst := hfree.step ⟨.call 0 none, rfl, by simp, rfl⟩
  have hhanded := hfirst.step ⟨.schedule, by decide, not_overtaking rfl, rfl⟩
  have hsecond := hhanded.step ⟨.call 1 none, rfl, by simp, rfl⟩
  have hwaiting := hsecond.step ⟨.schedule, by decide, not_overtaking rfl, rfl⟩
  exact ⟨_, hwaiting, rfl, orderly_handed hwaiting⟩

/-- A third request is called between the end of the first transfer and the callback, and
overtakes the second one, which has been waiting. -/
theorem waiting_overtaken : ∃ s : SendSystem (Fin 3) Unit,
    (sendSystem (Fin 3) Unit).Reachable s ∧ s.calls = [0, 1, 2] ∧ s.handed = [0, 2, 1] ∧
      ¬ s.handed <+: s.calls := by
  have hrun : ((SendSystem.fresh : SendSystem (Fin 3) Unit).follow
      [.schedule, .call 0 none, .schedule, .call 1 none, .schedule, .complete, .call 2 none,
        .schedule, .schedule, .schedule, .schedule, .complete, .schedule, .schedule,
        .schedule]).map (fun s => (s.calls, s.handed)) = some ([0, 1, 2], [0, 2, 1]) := by decide
  obtain ⟨s, hs, heq⟩ := Option.map_eq_some_iff.mp hrun
  obtain ⟨hcalls, hhanded⟩ := Prod.mk.inj heq
  refine ⟨s, SendSystem.follow_reachable (.init SendSystem.fresh_started) hs, hcalls, hhanded, ?_⟩
  rw [hcalls, hhanded]
  decide

end

end AiDeck.Cpx
