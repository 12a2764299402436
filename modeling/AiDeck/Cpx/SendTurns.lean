import AiDeck.Cpx.SendTask

/-! # Taking turns

The turn is free, taken by the request handed to the link, or on its way: the callback
of `send_done` is pending. With the homes of the contexts this is the invariant of
sending. -/
namespace AiDeck.Cpx
open AiDeck.Coroutine AiDeck.Lib

section
variable {Req Task : Type}

/-- Who has the turn. -/
inductive Turn (home : Req → Home Unit Unit) (s : SendSystem Req Task) : Prop
  | free (hdone : s.rt.eventDone sendDone = true) (hreq : s.cpxSpi.sendReq = none)
      (hq : callbacks s.rt = 0)
  | passing (hdone : s.rt.eventDone sendDone = false) (hreq : s.cpxSpi.sendReq = none)
      (hq : callbacks s.rt = 1)
  | taken (r : Req) (hdone : s.rt.eventDone sendDone = false) (hreq : s.cpxSpi.sendReq = some r)
      (hsent : s.cpxSpi.sendDone = some (.event sendDone)) (hq : callbacks s.rt = 0)
      (hhome : home r = .event sendDone) (hline : s.rt.resumePoint r = .line lineSent)

/-- A request that was called and has not returned: before the hand-over it has not been
handed, behind it the link has it or is done with it. -/
structure Called (s : SendSystem Req Task) (r : Req) : Prop where
  fn : s.rt.fn r = cpxSendTaskFn
  doneTask : ∀ e, s.rt.doneTask r ≠ some (.event e)
  returns : s.rt.returns r = []
  stage : ((s.rt.resumePoint r = .start ∨ s.rt.resumePoint r = .line lineTurn) ∧
      s.cpxSpi.sendReq ≠ some r ∧ s.trace r = [.called]) ∨
    (s.rt.resumePoint r = .line lineSent ∧
      ((s.cpxSpi.sendReq = some r ∧ s.trace r = [.called, .handed]) ∨
        (s.cpxSpi.sendReq ≠ some r ∧ s.trace r = [.called, .handed, .spiDone])))

/-- A request before its call or after its return. -/
def AtRest (s : SendSystem Req Task) (r : Req) : Prop :=
  s.cpxSpi.sendReq ≠ some r ∧
    ((s.rt.resumePoint r = .start ∧ s.trace r = [] ∧ s.rt.returns r = []) ∨
      (s.rt.resumePoint r = .done ∧ s.trace r = life ∧ (s.rt.returns r).length = 1))

structure SendInv (home : Req → Home Unit Unit) (W : Unit → List Req)
    (s : SendSystem Req Task) : Prop where
  rt : Inv home W s.rt
  calm : ∀ r, home r ≠ .running
  alone : (s.rt.group linkEvents).waitCtx = none
  turn : Turn home s
  atRest : ∀ r, home r = .idle → AtRest s r
  called : ∀ r, home r ≠ .idle → Called s r

/-! ## Requests a step leaves alone -/

/-- Nothing that concerns `r` has changed. -/
structure SameRequest (s t : SendSystem Req Task) (r : Req) : Prop where
  fn : t.rt.fn r = s.rt.fn r
  resumePoint : t.rt.resumePoint r = s.rt.resumePoint r
  doneTask : t.rt.doneTask r = s.rt.doneTask r
  returns : t.rt.returns r = s.rt.returns r
  trace : t.trace r = s.trace r
  sendReq : t.cpxSpi.sendReq = some r ↔ s.cpxSpi.sendReq = some r

variable {s t : SendSystem Req Task} {r : Req} {home : Req → Home Unit Unit}
  {W W' : Unit → List Req}

theorem Called.congr (h : Called s r) (hs : SameRequest s t r) : Called t r := by
  obtain ⟨hfn, hdone, hreturns, hstage⟩ := h
  refine ⟨hs.fn.trans hfn, fun e => hs.doneTask ▸ hdone e, hs.returns.trans hreturns, ?_⟩
  rw [hs.resumePoint, hs.trace, ne_eq, hs.sendReq]
  exact hstage

theorem AtRest.congr (h : AtRest s r) (hs : SameRequest s t r) : AtRest t r := by
  rw [AtRest, hs.resumePoint, hs.trace, hs.returns, ne_eq, hs.sendReq]
  exact h

/-- The turn stays where it is. -/
theorem Turn.congr {home' : Req → Home Unit Unit} (h : Turn home s)
    (hdone : t.rt.eventDone = s.rt.eventDone) (hspi : t.cpxSpi = s.cpxSpi)
    (hq : callbacks t.rt = callbacks s.rt)
    (howner : ∀ r, s.cpxSpi.sendReq = some r → home r = .event sendDone →
      home' r = .event sendDone ∧ t.rt.resumePoint r = s.rt.resumePoint r) : Turn home' t := by
  cases h with
  | free hd hr hc => exact .free (hdone ▸ hd) (hspi ▸ hr) (hq.trans hc)
  | passing hd hr hc => exact .passing (hdone ▸ hd) (hspi ▸ hr) (hq.trans hc)
  | taken r hd hr hs hc hh hl =>
    obtain ⟨hh', hp⟩ := howner r hr hh
    exact .taken r (hdone ▸ hd) (hspi ▸ hr) (hspi ▸ hs) (hq.trans hc) hh' (hp.trans hl)

/-- Only `r` moves. -/
theorem SendInv.move [DecidableEq Req] {x : Home Unit Unit} (h : SendInv home W s)
    (hrt : Inv (Function.update home r x) W' t.rt) (hx : x ≠ .running)
    (halone : (t.rt.group linkEvents).waitCtx = none) (hturn : Turn (Function.update home r x) t)
    (hsame : ∀ d, d ≠ r → SameRequest s t d) (hrest : x = .idle → AtRest t r)
    (hcalled : x ≠ .idle → Called t r) : SendInv (Function.update home r x) W' t := by
  refine ⟨hrt, ?_, halone, hturn, ?_, ?_⟩
  · intro d
    by_cases hd : d = r
    · subst hd
      rwa [Function.update_self]
    · rw [Function.update_of_ne hd]
      exact h.calm d
  · intro d hidle
    by_cases hd : d = r
    · subst hd
      rw [Function.update_self] at hidle
      exact hrest hidle
    · rw [Function.update_of_ne hd] at hidle
      exact (h.atRest d hidle).congr (hsame d hd)
  · intro d hne
    by_cases hd : d = r
    · subst hd
      rw [Function.update_self] at hne
      exact hcalled hne
    · rw [Function.update_of_ne hd] at hne
      exact (h.called d hne).congr (hsame d hd)

/-! ## The steps of the surroundings -/

theorem push_inv (h : SendInv home W s) (x : Task) :
    SendInv home W (s.withRt (piTaskPush s.rt (.other x))) := by
  have hsame : ∀ d, SameRequest s (s.withRt (piTaskPush s.rt (.other x))) d := fun d =>
    ⟨rfl, rfl, rfl, rfl, rfl, Iff.rfl⟩
  refine ⟨h.rt.push _, h.calm, h.alone, ?_, fun d hd => (h.atRest d hd).congr (hsame d),
    fun d hd => (h.called d hd).congr (hsame d)⟩
  exact h.turn.congr rfl rfl (callbacks_pushOther x) fun d _ hhome => ⟨hhome, rfl⟩

end

section
variable {Req Task : Type} [DecidableEq Req] {s : SendSystem Req Task} {r : Req}
  {home : Req → Home Unit Unit} {W : Unit → List Req}

/-- The state once `r` is called. -/
def calledWith (s : SendSystem Req Task) (r : Req) (doneTask : Option Task) :
    SendSystem Req Task :=
  { (s.withRt (coFnPushResume (coFnInit s.rt r cpxSendTaskFn (doneTask.map .other)) r)).stage r
      .called with calls := s.calls ++ [r] }

theorem call_inv (h : SendInv home W s) (htrace : s.trace r = []) (doneTask : Option Task) :
    cpxSendAsync s r doneTask = .ok (calledWith s r doneTask) ∧
      SendInv (Function.update home r .queued) W (calledWith s r doneTask) := by
  have hidle : home r = .idle := by
    by_contra hne
    rcases (h.called r hne).stage with ⟨-, -, hs⟩ | ⟨-, ⟨-, hs⟩ | ⟨-, hs⟩⟩ <;>
    · rw [htrace] at hs
      cases hs
  obtain ⟨hreq, ⟨-, -, hreturns⟩ | ⟨-, hlife, -⟩⟩ := h.atRest r hidle
  swap
  · rw [htrace] at hlife; cases hlife
  obtain ⟨hok, hrt⟩ := h.rt.pushStart hidle cpxSendTaskFn (doneTask.map .other)
  refine ⟨by rw [cpxSendAsync, hok]; rfl, ?_⟩
  refine h.move hrt (by simp) h.alone ?_ ?_ (by simp) fun _ => ⟨Function.update_self .., ?_, hreturns, Or.inl ?_⟩
  · refine h.turn.congr rfl rfl callbacks_pushResume fun d hd hhome => ?_
    have hne : d ≠ r := fun he => hreq (he ▸ hd)
    exact ⟨(Function.update_of_ne hne ..).trans hhome, Function.update_of_ne hne ..⟩
  · intro d hd
    constructor <;> first | rfl | exact Function.update_of_ne hd ..
  · intro e he
    change Function.update s.rt.doneTask r (doneTask.map .other) r = _ at he
    rw [Function.update_self] at he
    cases doneTask <;> cases he
  · refine ⟨Or.inl (Function.update_self ..), hreq, ?_⟩
    change Function.update s.trace r (s.trace r ++ [.called]) r = _
    rw [Function.update_self, htrace]
    rfl

/-- The end of the transfer passes the turn on. -/
theorem complete_inv (h : SendInv home W s) (hreq : s.cpxSpi.sendReq ≠ none) :
    SendInv home W (spiComplete s) := by
  cases h.turn with
  | free _ hr _ => exact absurd hr hreq
  | passing _ hr _ => exact absurd hr hreq
  | taken r hd hr hs hc hh hl =>
    have hcomplete : spiComplete s =
        { (s.withRt (coEventGroupClear (piTaskPush s.rt (.event sendDone)) linkEvents
            eventSend)).stage r .spiDone with cpxSpi := s.cpxSpi.clearSend } := by
      rw [spiComplete, hr, hs]
    rw [hcomplete]
    have hother : ∀ d, d ≠ r → SameRequest s
        { (s.withRt (coEventGroupClear (piTaskPush s.rt (.event sendDone)) linkEvents
            eventSend)).stage r .spiDone with cpxSpi := s.cpxSpi.clearSend } d := by
      intro d hne
      refine ⟨rfl, rfl, rfl, rfl, Function.update_of_ne hne .., ⟨by simp, fun he => ?_⟩⟩
      rw [hr] at he
      exact absurd (Option.some.inj he).symm hne
    refine ⟨(h.rt.push _).groupClear _ _, h.calm, ?_, ?_, ?_, ?_⟩
    · change (Function.update s.rt.group linkEvents _ linkEvents).waitCtx = none
      rw [Function.update_self]
      exact h.alone
    · refine .passing hd rfl (callbacks_pushEvent.trans ?_)
      rw [hc]
    · intro d hidle
      refine (h.atRest d hidle).congr (hother d ?_)
      rintro rfl
      rw [hh] at hidle
      cases hidle
    · intro d hlive
      by_cases hne : d = r
      · subst hne
        obtain ⟨hfn, hdoneTask, hreturns, hstage⟩ := h.called d hlive
        refine ⟨hfn, hdoneTask, hreturns, Or.inr ⟨hl, Or.inr ⟨by simp, ?_⟩⟩⟩
        rcases hstage with ⟨-, hne, -⟩ | ⟨-, ⟨-, ht⟩ | ⟨hne, -⟩⟩
        · exact absurd hr hne
        · change Function.update s.trace d (s.trace d ++ [.spiDone]) d = _
          rw [Function.update_self, ht]
          rfl
        · exact absurd hr hne
      · exact (h.called d hlive).congr (hother d hne)

/-! ## The scheduler -/

variable {q : List (Pending Req Unit Task)}

omit [DecidableEq Req] in
theorem other_inv {x : Task} (h : SendInv home W s) (hq : s.rt.queue = .task (.other x) :: q) :
    SendInv home W (s.withRt (s.rt.dequeue q)) := by
  have hsame : ∀ d, SameRequest s (s.withRt (s.rt.dequeue q)) d := fun d =>
    ⟨rfl, rfl, rfl, rfl, rfl, Iff.rfl⟩
  refine ⟨h.rt.other hq, h.calm, h.alone, ?_, fun d hd => (h.atRest d hd).congr (hsame d),
    fun d hd => (h.called d hd).congr (hsame d)⟩
  exact h.turn.congr rfl rfl (callbacks_cons_other hq rfl).symm fun d _ hhome => ⟨hhome, rfl⟩

variable [Fintype Req]

/-- The callback of `send_done` finds the turn on its way and frees it. -/
theorem callback_inv {e : Unit} (h : SendInv home W s) (hq : s.rt.queue = .task (.event e) :: q) :
    ∃ lists, coEventCallback (s.rt.dequeueEvent e q) e =
        .ok ((s.rt.dequeueEvent e q).resumeAll lists (W e)) ∧
      SendInv (wake home (W e)) (Function.update W e [])
        (s.withRt ((s.rt.dequeueEvent e q).resumeAll lists (W e))) := by
  obtain ⟨lists, hok, hrt⟩ := h.rt.callback hq
  have hcount := callbacks_cons_event hq
  have hone : s.cpxSpi.sendReq = none ∧ q.countP Pending.isCallback = 0 := by
    cases h.turn with
    | free _ _ hc => omega
    | passing _ hr hc => exact ⟨hr, by omega⟩
    | taken _ _ _ _ hc => omega
  have hidle : ∀ d, wake home (W e) d = .idle → home d = .idle := by
    intro d hd
    by_cases hm : d ∈ W e
    · simp [wake, hm] at hd
    · simpa [wake, hm] using hd
  have hlive : ∀ d, wake home (W e) d ≠ .idle → home d ≠ .idle := by
    intro d hd hi
    by_cases hm : d ∈ W e
    · rw [(h.rt.waiting e d).mp hm] at hi
      cases hi
    · exact hd (by simpa [wake, hm] using hi)
  have hsame : ∀ d, SameRequest s (s.withRt ((s.rt.dequeueEvent e q).resumeAll lists (W e))) d :=
    fun d => ⟨rfl, rfl, rfl, rfl, rfl, Iff.rfl⟩
  refine ⟨lists, hok, hrt, ?_, h.alone, ?_, fun d hd => (h.atRest d (hidle d hd)).congr (hsame d),
    fun d hd => (h.called d (hlive d hd)).congr (hsame d)⟩
  · intro d hd
    by_cases hm : d ∈ W e
    · simp [wake, hm] at hd
    · exact h.calm d (by simpa [wake, hm] using hd)
  · have hdone : Function.update s.rt.eventDone e true sendDone = true := Function.update_self ..
    refine .free hdone hone.1 ?_
    change (q ++ (W e).map Pending.resume).countP Pending.isCallback = 0
    rw [List.countP_append, hone.2, List.countP_map, Nat.zero_add, List.countP_eq_zero]
    intro d _
    simp [Pending.isCallback]

/-! ## A send task -/

/-- The runtime once the pending context `r` has control. -/
def begun (s : SendSystem Req Task) (q : List (Pending Req Unit Task)) (r : Req) :
    Runtime Req Unit Unit Task :=
  coFnSuspend (recordResume (s.rt.dequeue q) r) r .running

omit [Fintype Req] in
/-- A send task gets control: only its resume point has changed. -/
theorem begun_fields (s : SendSystem Req Task) (q : List (Pending Req Unit Task)) (r : Req) :
    (begun s q r).fn = s.rt.fn ∧ (begun s q r).doneTask = s.rt.doneTask ∧
      (begun s q r).eventDone = s.rt.eventDone ∧ (begun s q r).group = s.rt.group ∧
      (begun s q r).queue = q ∧ (begun s q r).returns = s.rt.returns ∧
      ∀ d, d ≠ r → (begun s q r).resumePoint d = s.rt.resumePoint d := by
  rw [begun, recordResume_eq]
  exact ⟨rfl, rfl, rfl, rfl, rfl, rfl, fun d hd => Function.update_of_ne hd ..⟩

omit [Fintype Req] in
theorem begin_inv (h : SendInv home W s) (hq : s.rt.queue = .resume r :: q) :
    coFnBegin (s.rt.dequeue q) r = .ok (s.rt.resumePoint r, begun s q r) ∧
      Inv (Function.update home r .running) W (begun s q r) ∧ home r = .queued ∧
      s.cpxSpi.sendReq ≠ some r ∧ q.countP Pending.isCallback = callbacks s.rt := by
  have hqueued : home r = .queued := by
    refine (h.rt.queued r).mp ?_
    rw [Runtime.resuming, hq]
    exact List.mem_cons_self
  refine ⟨h.rt.begin_ok hq, h.rt.resume hq, hqueued, ?_, ?_⟩
  · intro hr
    cases h.turn with
    | free _ hn _ => rw [hn] at hr; cases hr
    | passing _ hn _ => rw [hn] at hr; cases hr
    | taken d _ hd _ _ hh _ =>
      obtain rfl := Option.some.inj (hd.symm.trans hr)
      rw [hqueued] at hh
      cases hh
  · exact (callbacks_cons_other hq rfl).symm

omit [Fintype Req] in
/-- The owner of a finished transfer returns. -/
theorem end_inv (h : SendInv home W s) (hq : s.rt.queue = .resume r :: q)
    (hline : s.rt.resumePoint r = .line lineSent) :
    SendInv (Function.update home r .idle) W
      (sendTaskEnd ((s.withRt (s.rt.dequeue q)).withRt (begun s q r)) r) := by
  obtain ⟨-, hrt, hqueued, hreq, hcount⟩ := begin_inv h hq
  obtain ⟨hfn, hdone, hevent, hgroup, hqueue, hreturns, hpoint⟩ := begun_fields s q r
  have hret := hrt.ret (Function.update_self ..)
  rw [Function.update_idem] at hret
  have hcalled := h.called r (by simp [hqueued])
  have htrace : s.trace r = [.called, .handed, .spiDone] := by
    rcases hcalled.stage with ⟨hp | hp, -⟩ | ⟨-, ⟨hr, -⟩ | ⟨-, ht⟩⟩
    · rw [hline] at hp; cases hp
    · rw [hline] at hp; cases hp
    · exact absurd hr hreq
    · exact ht
  refine h.move hret (by simp) ?_ ?_ ?_ (fun _ => ⟨hreq, Or.inr ⟨?_, ?_, ?_⟩⟩) fun hne => absurd rfl hne
  · change ((coReturn (begun s q r) r).group linkEvents).waitCtx = none
    rw [coReturn_eq, hgroup]
    exact h.alone
  · refine h.turn.congr ?_ rfl ?_ ?_
    · change (coReturn (begun s q r) r).eventDone = _
      rw [coReturn_eq, hevent]
    · change callbacks (coReturn (begun s q r) r) = _
      rw [callbacks, coReturn_eq, hqueue, List.countP_append, hcount, hdone]
      cases hd : s.rt.doneTask r with
      | none => rfl
      | some x => cases x with
        | event e => exact absurd hd (hcalled.doneTask e)
        | other x => rfl
    · intro d hd hhome
      have hne : d ≠ r := fun he => hreq (he ▸ hd)
      refine ⟨(Function.update_of_ne hne ..).trans hhome, ?_⟩
      change (coReturn (begun s q r) r).resumePoint d = _
      rw [coReturn_eq]
      exact (Function.update_of_ne hne ..).trans (hpoint d hne)
  · intro d hd
    refine ⟨?_, ?_, ?_, ?_, Function.update_of_ne hd .., Iff.rfl⟩
    · change (coReturn (begun s q r) r).fn d = _
      rw [coReturn_eq, hfn]
    · change (coReturn (begun s q r) r).resumePoint d = _
      rw [coReturn_eq]
      exact (Function.update_of_ne hd ..).trans (hpoint d hd)
    · change (coReturn (begun s q r) r).doneTask d = _
      rw [coReturn_eq, hdone]
    · change (coReturn (begun s q r) r).returns d = _
      rw [coReturn_eq]
      exact (Function.update_of_ne hd ..).trans (congrFun hreturns d)
  · change (coReturn (begun s q r) r).resumePoint r = .done
    rw [coReturn_eq]
    exact Function.update_self ..
  · change Function.update s.trace r (s.trace r ++ [.donePushed]) r = life
    rw [Function.update_self, htrace]
    rfl
  · change ((coReturn (begun s q r) r).returns r).length = 1
    rw [coReturn_eq, hreturns]
    change (Function.update s.rt.returns r (s.rt.returns r ++ _) r).length = 1
    rw [Function.update_self, hcalled.returns]
    rfl

/-- The state once `r` waits for the turn. -/
def turned (s : SendSystem Req Task) (q : List (Pending Req Unit Task)) (r : Req)
    (lists : Lists Unit Req) : SendSystem Req Task :=
  s.withRt (recordWait ((coFnSuspend (begun s q r) r (.line lineTurn)).withLists lists) sendDone r)

/-- The state once the link has `r` and `r` waits for the end of its transfer. -/
def handedOver (s : SendSystem Req Task) (q : List (Pending Req Unit Task)) (r : Req)
    (lists : Lists Unit Req) : SendSystem Req Task :=
  let rt := coEventGroupSet (coEventInit (begun s q r) sendDone) linkEvents eventSend
  let rt := recordWait ((coFnSuspend rt r (.line lineSent)).withLists lists) sendDone r
  { (s.withRt rt).stage r .handed with
    cpxSpi := s.cpxSpi.withSend r (.event sendDone)
    handed := s.handed ++ [r] }

omit [DecidableEq Req] [Fintype Req] in
/-- Before the wait for the end of its transfer a request has not been handed over. -/
theorem Called.before (h : Called s r) (hline : s.rt.resumePoint r ≠ .line lineSent) :
    s.trace r = [.called] := by
  rcases h.stage with ⟨-, -, ht⟩ | ⟨hp, -⟩
  · exact ht
  · exact absurd hp hline

/-- The turn is not free: `r` waits for the callback of `send_done`. -/
theorem turn_inv (h : SendInv home W s) (hq : s.rt.queue = .resume r :: q)
    (hline : s.rt.resumePoint r ≠ .line lineSent) (hdone : s.rt.eventDone sendDone = false) :
    ∃ lists, sendTaskTurn (s.withRt (begun s q r)) r = .ok (turned s q r lists) ∧
      SendInv (Function.update home r (.event sendDone))
        (Function.update W sendDone (W sendDone ++ [r])) (turned s q r lists) := by
  obtain ⟨-, hrt, hqueued, hreq, hcount⟩ := begin_inv h hq
  obtain ⟨hfn, hdoneTask, hevent, hgroup, hqueue, hreturns, hpoint⟩ := begun_fields s q r
  have hcalled := h.called r (by simp [hqueued])
  have hmem : lineTurn ∈ ((begun s q r).fn r).lines := by
    rw [hfn, hcalled.fn]
    exact List.mem_cons_self
  obtain ⟨lists, hok, hwait⟩ := hrt.waitOpen (Function.update_self ..) hmem
    (e := sendDone) (by rw [hevent]; exact hdone)
  rw [Function.update_idem] at hwait
  refine ⟨lists, ?_, ?_⟩
  · have hnot : coEventIsDone (s.withRt (begun s q r)).rt sendDone = false := by
      change (begun s q r).eventDone sendDone = false
      rw [hevent]
      exact hdone
    rw [sendTaskTurn, hnot]
    change (do let rt ← coWait (begun s q r) r lineTurn sendDone; _) = _
    rw [hok]
    rfl
  · refine h.move hwait (by simp) ?_ ?_ ?_ (by simp) fun _ => ⟨?_, ?_, ?_, Or.inl ⟨Or.inr ?_, hreq, ?_⟩⟩
    · change ((begun s q r).group linkEvents).waitCtx = none
      rw [hgroup]
      exact h.alone
    · refine h.turn.congr hevent rfl ?_ ?_
      · change (begun s q r).queue.countP Pending.isCallback = _
        rw [hqueue, hcount]
      · intro d hd hhome
        have hne : d ≠ r := fun he => hreq (he ▸ hd)
        exact ⟨(Function.update_of_ne hne ..).trans hhome,
          (Function.update_of_ne hne ..).trans (hpoint d hne)⟩
    · intro d hd
      exact ⟨congrFun hfn d, (Function.update_of_ne hd ..).trans (hpoint d hd),
        congrFun hdoneTask d, congrFun hreturns d, rfl, Iff.rfl⟩
    · exact (congrFun hfn r).trans hcalled.fn
    · intro e
      change (begun s q r).doneTask r ≠ _
      rw [hdoneTask]
      exact hcalled.doneTask e
    · exact (congrFun hreturns r).trans hcalled.returns
    · exact Function.update_self ..
    · exact hcalled.before hline

omit [Fintype Req] in
/-- Handing a request over changes the send event, the link's group and what is said of `r`. -/
theorem handedOver_fields (halone : (s.rt.group linkEvents).waitCtx = none)
    (lists : Lists Unit Req) :
    (handedOver s q r lists).rt.fn = s.rt.fn ∧
      (handedOver s q r lists).rt.doneTask = s.rt.doneTask ∧
      (handedOver s q r lists).rt.queue = q ∧
      (handedOver s q r lists).rt.returns = s.rt.returns ∧
      (handedOver s q r lists).rt.eventDone sendDone = false ∧
      ((handedOver s q r lists).rt.group linkEvents).waitCtx = none ∧
      ∀ d, d ≠ r → (handedOver s q r lists).rt.resumePoint d = s.rt.resumePoint d := by
  obtain ⟨hfn, hdoneTask, -, hgroup, hqueue, hreturns, hpoint⟩ := begun_fields s q r
  have halone' : ((coEventInit (begun s q r) sendDone).group linkEvents).waitCtx = none := by
    change ((begun s q r).group linkEvents).waitCtx = none
    rw [hgroup]
    exact halone
  rw [handedOver, coEventGroupSet_alone halone']
  refine ⟨hfn, hdoneTask, hqueue, hreturns, ?_, ?_,
    fun d hd => (Function.update_of_ne hd ..).trans (hpoint d hd)⟩
  · change Function.update (begun s q r).eventDone sendDone false sendDone = false
    exact Function.update_self ..
  · change (Function.update (coEventInit (begun s q r) sendDone).group linkEvents _
      linkEvents).waitCtx = none
    rw [Function.update_self]
    exact halone'

/-- The turn is free: `r` takes it, and the link had no request. -/
theorem hand_inv (h : SendInv home W s) (hq : s.rt.queue = .resume r :: q)
    (hline : s.rt.resumePoint r ≠ .line lineSent) (hdone : s.rt.eventDone sendDone = true) :
    ∃ lists, sendTaskTurn (s.withRt (begun s q r)) r = .ok (handedOver s q r lists) ∧
      SendInv (Function.update home r (.event sendDone))
        (Function.update W sendDone (W sendDone ++ [r])) (handedOver s q r lists) := by
  obtain ⟨-, hrt, hqueued, hreq, hcount⟩ := begin_inv h hq
  obtain ⟨hfn, -, hevent, hgroup, -, -, -⟩ := begun_fields s q r
  have hcalled := h.called r (by simp [hqueued])
  have hfree : s.cpxSpi.sendReq = none ∧ callbacks s.rt = 0 := by
    cases h.turn with
    | free _ hr hc => exact ⟨hr, hc⟩
    | passing hd _ _ => rw [hd] at hdone; cases hdone
    | taken _ hd _ _ _ _ _ => rw [hd] at hdone; cases hdone
  have hbegunDone : (begun s q r).eventDone sendDone = true := by rw [hevent]; exact hdone
  have halone : ((coEventInit (begun s q r) sendDone).group linkEvents).waitCtx = none := by
    change ((begun s q r).group linkEvents).waitCtx = none
    rw [hgroup]
    exact h.alone
  have hinit := hrt.eventInit (hrt.holds.first_eq_none_iff.mpr (hrt.woken sendDone hbegunDone))
  have hset := hinit.setGroup (g := linkEvents)
    (x := ((coEventInit (begun s q r) sendDone).group linkEvents).withMask
      (((coEventInit (begun s q r) sendDone).group linkEvents).mask ||| eventSend))
    rfl fun hne => absurd halone hne
  rw [← coEventGroupSet_alone halone] at hset
  have hmem : lineSent ∈ ((coEventGroupSet (coEventInit (begun s q r) sendDone) linkEvents
      eventSend).fn r).lines := by
    rw [coEventGroupSet_alone halone]
    change lineSent ∈ ((begun s q r).fn r).lines
    rw [hfn, hcalled.fn]
    exact List.mem_cons_of_mem _ List.mem_cons_self
  have hinitDone : (coEventGroupSet (coEventInit (begun s q r) sendDone) linkEvents
      eventSend).eventDone sendDone = false := by
    rw [coEventGroupSet_alone halone]
    exact Function.update_self sendDone false (begun s q r).eventDone
  obtain ⟨lists, hok, hwait⟩ := hset.waitOpen (Function.update_self ..) hmem hinitDone
  rw [Function.update_idem] at hwait
  refine ⟨lists, ?_, ?_⟩
  · have hisDone : coEventIsDone (s.withRt (begun s q r)).rt sendDone = true := hbegunDone
    have hnone : ¬ s.cpxSpi.sendReq.isSome = true := by simp [hfree.1]
    have hsend : cpxSpiSendAsync (coEventInit (s.withRt (begun s q r)).rt sendDone) linkEvents
        (s.withRt (begun s q r)).cpxSpi r (.event sendDone) =
          .ok (coEventGroupSet (coEventInit (begun s q r) sendDone) linkEvents eventSend,
            s.cpxSpi.withSend r (.event sendDone)) :=
      if_neg hnone
    rw [sendTaskTurn, hisDone, if_pos rfl, sendTaskHand, hsend]
    change (do
      let rt ← coWait (coEventGroupSet (coEventInit (begun s q r) sendDone) linkEvents eventSend) r
        lineSent sendDone
      _) = _
    rw [hok]
    rfl
  · obtain ⟨hfn', hdoneTask', hqueue', hreturns', hopen, halone', hpoint'⟩ :=
      handedOver_fields (q := q) (r := r) h.alone lists
    refine h.move hwait (by simp) halone' ?_ ?_ (by simp)
      fun _ => ⟨?_, ?_, ?_, Or.inr ⟨?_, Or.inl ⟨rfl, ?_⟩⟩⟩
    · refine .taken r hopen rfl rfl ?_ (Function.update_self ..) (Function.update_self ..)
      rw [callbacks, hqueue', hcount, hfree.2]
    · intro d hd
      have hother : (handedOver s q r lists).cpxSpi.sendReq = some d ↔
          s.cpxSpi.sendReq = some d := by
        rw [hfree.1]
        exact ⟨fun he => absurd (Option.some.inj he).symm hd, by simp⟩
      exact ⟨congrFun hfn' d, hpoint' d hd, congrFun hdoneTask' d, congrFun hreturns' d,
        Function.update_of_ne hd .., hother⟩
    · exact (congrFun hfn' r).trans hcalled.fn
    · intro e
      rw [hdoneTask']
      exact hcalled.doneTask e
    · exact (congrFun hreturns' r).trans hcalled.returns
    · exact Function.update_self ..
    · change Function.update s.trace r (s.trace r ++ [.handed]) r = _
      rw [Function.update_self, hcalled.before hline]
      rfl

end

end AiDeck.Cpx
