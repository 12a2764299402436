import AiDeck.Cpx.LinkSteps

/-! # The twelve steps

At its place each step of `cpx_spi_task` goes through, and the abstract link takes the
steps that the log records. -/
namespace AiDeck.Cpx
open AiDeck.Coroutine AiDeck.Lib

section
variable {S R Task : Type} {s t : LinkSystem S R Task} {W : Unit → List Unit} {n n' : LinkStep}
  {l : Link S R Task}

def isNina : Pending Unit Unit (LinkPiTask Task) → Bool
  | .task (.other .ninaRtt) => true
  | _ => false

/-- The rising edges the task has not used: their tasks are pending or their bit is set. -/
def edges (s : LinkSystem S R Task) : Nat :=
  s.rt.queue.countP isNina + if s.bit 0 = true then 1 else 0

theorem edges_congr {q : List (Pending Unit Unit (LinkPiTask Task))} (hbit : t.bit 0 = s.bit 0)
    (hq : t.rt.queue = s.rt.queue ++ q) (hnone : q.countP isNina = 0) : edges t = edges s := by
  rw [edges, edges, hbit, hq, List.countP_append, hnone]
  rfl

namespace LinkInv

/-- Nobody waits on the group while the task has control. -/
theorem alone (h : LinkInv .running W (.step n) l s) :
    (s.rt.group spiEvents).waitCtx = none := by
  cases hctx : (s.rt.group spiEvents).waitCtx with
  | none => rfl
  | some c => cases (h.rt.waitCtx spiEvents c).mp hctx

/-- A step that leaves the runtime, the requests and the driver alone. -/
theorem move (h : LinkInv .running W (.step n) l s) (hrt : t.rt = s.rt)
    (hstep : t.step = some n') (hflight : t.inFlight = s.inFlight) (hcpx : t.cpxSpi = s.cpxSpi)
    (hlog : t.log = s.log) (hready : Ready .running t (.step n'))
    (hagrees : Agrees (.step n') l t) : LinkInv .running W (.step n') l t := by
  obtain ⟨-, -, hquiet⟩ := h.control
  have hbit : ∀ i, t.bit i = s.bit i := fun i => by rw [LinkSystem.bit, hrt]; rfl
  refine ⟨hrt ▸ h.rt, hrt ▸ h.fn, ⟨hstep, rfl, hflight.trans hquiet.inFlight, ?_⟩, hready, ⟨?_, ?_⟩,
    hagrees, hlog ▸ h.runs, hlog ▸ h.starts⟩
  · rw [hrt]
    exact hquiet.callbacks
  · rw [hbit, hcpx]
    exact h.bits.send
  · rw [hbit, hcpx]
    exact h.bits.receive

/-- The steps 1, 2 and 4: the wait is over at once or stays open. -/
theorem wait (h : LinkInv .running W (.step n) l s) (w : GroupWait) (hleft : n.left = none)
    (hready : ∀ home, (home = .queued → w.Met s) → Ready home s (.group w)) :
    ∃ t home, waitEvents s w = .ok t ∧ LinkInv home W (.group w) l t ∧
      edges t = edges s := by
  obtain ⟨-, -, hquiet⟩ := h.control
  have hmem : w.line ∈ (s.rt.fn cpxSpiCtx).lines := by
    rw [h.fn]
    cases w <;> decide
  have hwait : ∀ rt, coWaitGroup s.rt cpxSpiCtx w.line spiEvents w.mask w.mode = .ok rt →
      waitEvents s w = .ok (((s.withEvents w.mask).withRt rt).goTo none) := by
    intro rt hok
    rw [waitEvents, hok]
    rfl
  -- the group has the same bits behind the wait
  have hbit : ∀ (ctx : Option Unit) (i : Nat), (((coFnSuspend s.rt cpxSpiCtx (.line w.line)).setGroup
      spiEvents ⟨(s.rt.group spiEvents).mask, ctx, w.mask, w.mode⟩).group
        spiEvents).mask.getLsbD i = s.bit i := by
    intro ctx i
    rw [Runtime.setGroup_group]
    rfl
  cases htest : coEventGroupTest (s.rt.group spiEvents) w.mask w.mode with
  | true =>
    obtain ⟨hok, hrt⟩ := h.rt.waitGroupDone rfl hmem h.alone htest
    rw [home_unit] at hrt
    refine ⟨_, .queued, hwait _ hok, ⟨hrt, h.fn, ⟨rfl, ?_, ⟨hquiet.inFlight, ?_⟩,
      Or.inl rfl⟩, ?_, ⟨?_, ?_⟩, h.agrees.waiting rfl hleft rfl (by simp), h.runs, h.starts⟩,
      edges_congr (hbit none 0) rfl rfl⟩
    · exact Function.update_self cpxSpiCtx (.line w.line) s.rt.resumePoint
    · exact callbacks_pushResume.trans hquiet.callbacks
    · exact (hready .queued fun _ => (test_iff s w).mp htest).mono
        (fun i hi => (hbit none i).trans hi) rfl
    · exact (hbit none 1).trans h.bits.send
    · exact (hbit none 2).trans h.bits.receive
  | false =>
    obtain ⟨hok, hrt⟩ := h.rt.waitGroupOpen rfl hmem h.alone htest
    rw [home_unit] at hrt
    refine ⟨_, .group spiEvents, hwait _ hok, ⟨hrt, h.fn, ⟨rfl, ?_,
      ⟨hquiet.inFlight, hquiet.callbacks⟩, Or.inr ⟨rfl, ?_, ?_⟩⟩, ?_, ⟨?_, ?_⟩,
      h.agrees.waiting rfl hleft rfl (by simp), h.runs, h.starts⟩,
      edges_congr (hbit (some cpxSpiCtx) 0) (List.append_nil _).symm rfl⟩
    · exact Function.update_self cpxSpiCtx (.line w.line) s.rt.resumePoint
    · exact congrArg EventGroup.waitMask (Runtime.setGroup_group ..)
    · exact congrArg EventGroup.waitMode (Runtime.setGroup_group ..)
    · exact (hready (.group spiEvents) (by simp)).mono (fun i hi => (hbit (some cpxSpiCtx) i).trans hi) rfl
    · exact (hbit (some cpxSpiCtx) 1).trans h.bits.send
    · exact (hbit (some cpxSpiCtx) 2).trans h.bits.receive

/-! ## The transfer -/

theorem phaseCalls_ok (config : LinkConfig) (s : LinkSystem S R Task) (p : Phase) {r : R}
    (hr : s.receiveReq = some r) : ∃ op, phaseCalls config s p = .ok [op] := by
  have hmap : s.receiveReq.map s.receiveReqs = some (s.receiveReqs r) := by rw [hr]; rfl
  cases p with
  | header =>
    obtain ⟨x, hx, -⟩ := transferHeader_ok config.emptyHeader (s.sendReq.map s.sendReqs)
      (s.receiveReqs r)
    exact ⟨.spi x, by rw [phaseCalls, hmap, hx]⟩
  | head =>
    obtain ⟨op, hop, -⟩ := transferPayloadHead_ok config.emptyHeader (s.sendReq.map s.sendReqs)
      (s.receiveReqs r)
    exact ⟨op, by rw [phaseCalls, hmap, hop]⟩
  | tail =>
    obtain ⟨op, hop, -⟩ := transferPayloadTail_ok (s.sendReq.map s.sendReqs) (s.receiveReqs r)
    exact ⟨op, by rw [phaseCalls, hmap, hop]⟩

/-- A phase with its wait: either its transfer is in flight or the phase is over at once
and the callback of `spi_done` is pending. -/
theorem runPhase (config : LinkConfig) {p : Phase} (hrt : Inv (fun _ => .running) W s.rt)
    (hfn : s.rt.fn cpxSpiCtx = cpxSpiTaskFn) (hquiet : Quiet s)
    (hready : ∀ past, Ready (.event spiDone) s (.phase p past)) (hbits : Bits s)
    (hagrees : Agrees (.phase p false) l s) (hruns : (link S R Task).Runs s.log l)
    (hstarts : StartsReady s.log) :
    ∃ t past W' l', transferPhase config s p = .ok t ∧
      LinkInv (.event spiDone) W' (.phase p past) l' t ∧ edges t = edges s := by
  obtain ⟨x, hx, hleft, hr, hs⟩ := hagrees.transfer _ rfl
  obtain ⟨op, hop⟩ := phaseCalls_ok config s p hr
  have hempty : W spiDone = [] := by
    refine List.eq_nil_iff_forall_not_mem.mpr fun d hd => ?_
    cases (hrt.waiting spiDone d).mp hd
  have hinit := hrt.eventInit (hrt.holds.first_eq_none_iff.mpr hempty)
  have hmem : p.line ∈ (s.rt.fn cpxSpiCtx).lines := by
    rw [hfn]
    cases p <;> decide
  have hopen : (coEventInit s.rt spiDone).eventDone spiDone = false := by
    simp only [coEventInit, Function.update_self]
  cases op with
  | spi transfer =>
    obtain ⟨lists, hok, hwait⟩ := hinit.waitOpen (c := cpxSpiCtx) rfl hmem hopen
    rw [home_unit] at hwait
    have hphase : ∀ rt, coWait (coEventInit s.rt spiDone) cpxSpiCtx p.line spiDone = .ok rt →
        transferPhase config s p = .ok (((s.fly (some (p, transfer))).withRt rt).goTo none) := by
      intro rt hrt
      rw [transferPhase, hop]
      change (do let rt ← coWait (coEventInit s.rt spiDone) cpxSpiCtx p.line spiDone; _) = _
      rw [hrt]
      rfl
    refine ⟨_, false, _, l, hphase _ hok, ⟨hwait, hfn, ⟨rfl, ?_, ⟨transfer, rfl⟩, hquiet.callbacks,
      rfl, hopen⟩, (hready false).mono (fun _ hi => hi) rfl, ⟨hbits.send, hbits.receive⟩,
      hagrees.moved rfl rfl rfl rfl (by simp), hruns, hstarts⟩,
      edges_congr rfl (List.append_nil _).symm rfl⟩
    exact Function.update_self cpxSpiCtx (.line p.line) s.rt.resumePoint
  | push =>
    obtain ⟨lists, hok, hwait⟩ := (hinit.push (.event spiDone)).waitOpen (c := cpxSpiCtx)
      (e := spiDone) rfl hmem hopen
    rw [home_unit] at hwait
    have hphase : ∀ rt, coWait (piTaskPush (coEventInit s.rt spiDone) (.event spiDone)) cpxSpiCtx
        p.line spiDone = .ok rt →
          transferPhase config s p = .ok (((s.record (.ended p)).withRt rt).goTo none) := by
      intro rt hrt
      rw [transferPhase, hop]
      change (do
        let rt ← coWait (piTaskPush (coEventInit s.rt spiDone) (.event spiDone)) cpxSpiCtx p.line
          spiDone
        _) = _
      rw [hrt]
      rfl
    refine ⟨_, true, _, ⟨l.send, l.receive, some ⟨x.send, x.receive, p.after⟩⟩, hphase _ hok,
      ⟨hwait, hfn, ⟨rfl, ?_, hquiet.inFlight, Or.inr ⟨rfl, ?_, hopen⟩⟩,
      (hready true).mono (fun _ hi => hi) rfl, ⟨hbits.send, hbits.receive⟩,
      .under hagrees.send hagrees.sendDone hagrees.receive hagrees.receiveDone rfl rfl hr hs
        (by simp), hruns.step (.ended hx hleft), hstarts.concat (by simp)⟩,
      edges_congr rfl rfl rfl⟩
    · exact Function.update_self cpxSpiCtx (.line p.line) s.rt.resumePoint
    · exact callbacks_pushEvent.trans (congrArg (· + 1) hquiet.callbacks)

/-! ## One after the other -/

variable [DecidableEq R] (config : LinkConfig)

theorem step3 (h : LinkInv .running W (.step .step3) l s) :
    ∃ t, cpxSpiTask config s .step3 = .ok t ∧ LinkInv .running W (.step .step4) l t ∧
      t.rt = s.rt := by
  obtain ⟨hasked, hreceive⟩ := h.ready
  have hevents : coEventGroupGet s.rt spiEvents eventSend &&& eventSend ≠ 0 ↔ s.bit 1 = true :=
    get_iff s rfl (by decide) (by decide)
  rw [cpxSpiTask]
  by_cases hsend : s.bit 1 = true
  · rw [if_pos (hevents.mpr hsend)]
    exact ⟨_, rfl, h.move rfl rfl rfl rfl rfl ⟨hreceive, Or.inr ⟨hsend, rfl⟩⟩
      (h.agrees.waiting rfl rfl rfl (by simp)), rfl⟩
  · rw [if_neg fun he => hsend (hevents.mp he)]
    exact ⟨_, rfl, h.move rfl rfl rfl rfl rfl ⟨hreceive, Or.inl (hasked.resolve_right hsend)⟩
      (h.agrees.waiting rfl rfl rfl (by simp)), rfl⟩

/-- Step 5 finds NINA and a receive request, and takes whatever requests there are. -/
theorem step5 (h : LinkInv .running W (.step .step5) l s) :
    ∃ t, cpxSpiTask config s .step5 = .ok t ∧ LinkInv .running W (.step .step6) l t ∧
      t.rt = s.rt := by
  obtain ⟨hreceive, hnina⟩ := h.ready
  obtain ⟨h1, h2, h3, h4, h5, -, -⟩ := h.agrees
  have hsend : coEventGroupGet s.rt spiEvents eventsAll &&& eventSend ≠ 0 ↔ s.bit 1 = true :=
    get_iff s rfl (by decide) (by decide)
  have hall : coEventGroupGet s.rt spiEvents eventsAll &&& eventReceive ≠ 0 ↔ s.bit 2 = true :=
    get_iff s rfl (by decide) (by decide)
  refine ⟨_, rfl, h.move rfl rfl rfl rfl rfl hnina
    ⟨h1, h2, h3, h4, fun _ => h5 rfl, by simp [Place.left, LinkStep.left], fun _ => ⟨?_, if_pos (hall.mpr hreceive), ?_, ?_, ?_⟩⟩,
    rfl⟩
  · have hbit := h.bits.send
    change (if coEventGroupGet s.rt spiEvents eventsAll &&& eventSend ≠ 0 then s.cpxSpi.sendReq
      else none) = s.cpxSpi.sendReq
    cases hreq : s.cpxSpi.sendReq with
    | none => exact ite_self none
    | some r =>
      rw [hreq] at hbit
      exact if_pos (hsend.mpr hbit)
  · have hsome := h.bits.receive
    rw [hreceive] at hsome
    exact Option.isSome_iff_ne_none.mp hsome.symm
  · exact (bit_get s eventsAll 0).trans (by rw [hnina]; decide)
  · exact (bit_get s eventsAll 2).trans (by rw [hreceive]; decide)

/-- Step 6 starts the transfer. -/
theorem step6 (h : LinkInv .running W (.step .step6) l s) :
    ∃ t past W' l', cpxSpiTask config s .step6 = .ok t ∧
      LinkInv (.event spiDone) W' (.phase .header past) l' t ∧ edges t = edges s := by
  obtain ⟨-, -, hquiet⟩ := h.control
  obtain ⟨h1, h2, h3, h4, h5, -, h7⟩ := h.agrees
  obtain ⟨hsend, hreceive, hsome, hnina, hbit⟩ := h7 rfl
  obtain ⟨x, hx⟩ : ∃ x, l.receive = some x := by
    rw [h3] at hsome
    cases hl : l.receive with
    | none => rw [hl] at hsome; exact absurd rfl hsome
    | some x => exact ⟨x, rfl⟩
  have hlocal : s.receiveReq = some x.1 := by rw [hreceive, h3, hx]; rfl
  have hruns := h.runs.step (.start s.events hx (h5 rfl))
  rw [← h1, ← hsend, ← hlocal] at hruns
  refine runPhase (s := s.record (.start s.events s.sendReq s.receiveReq))
    (l := ⟨l.send, l.receive, some ⟨l.send, x, [.header, .head, .tail]⟩⟩) config h.rt h.fn
    ⟨hquiet.inFlight, hquiet.callbacks⟩ (fun _ => h.ready) ⟨h.bits.send, h.bits.receive⟩
    (.under h1 h2 h3 h4 rfl rfl hlocal (h1.symm.trans hsend.symm) (by simp)) hruns
    (h.starts.concat ?_)
  intro events send receive he
  cases he
  refine ⟨hnina, hbit, ?_⟩
  simp [hlocal]

theorem step7 (h : LinkInv .running W (.step .step7) l s) :
    ∃ t, cpxSpiTask config s .step7 = .ok t ∧ LinkInv .running W (.step .step8) l t ∧
      t.rt = s.rt :=
  ⟨_, rfl, h.move rfl rfl rfl rfl rfl h.ready (h.agrees.moved rfl rfl rfl rfl (by simp)), rfl⟩

theorem dropReceived_eq (s : LinkSystem S R Task) :
    ∃ f, dropReceived config s = s.withReceiveReqs f := by
  rw [dropReceived]
  cases config.bidirectional with
  | true => exact ⟨s.receiveReqs, rfl⟩
  | false => cases s.receiveReq with
    | none => exact ⟨s.receiveReqs, rfl⟩
    | some r => exact ⟨_, rfl⟩

/-- Step 8 uses a rising edge up. -/
theorem step8 (h : LinkInv .running W (.step .step8) l s) :
    ∃ t, cpxSpiTask config s .step8 = .ok t ∧ LinkInv .running W (.step .step9) l t ∧
      edges t < edges s := by
  obtain ⟨-, -, hquiet⟩ := h.control
  obtain ⟨f, hf⟩ := dropReceived_eq config
    (s.withRt (coEventGroupClear s.rt spiEvents eventNinaRtt))
  refine ⟨((s.withRt (coEventGroupClear s.rt spiEvents eventNinaRtt)).withReceiveReqs f).goTo
    (some .step9), by rw [cpxSpiTask, hf], ⟨h.rt.groupClear _ _, h.fn,
    ⟨rfl, rfl, hquiet.inFlight, hquiet.callbacks⟩, trivial, ⟨?_, ?_⟩,
    h.agrees.moved rfl rfl rfl rfl (by simp), h.runs, h.starts⟩, ?_⟩
  · exact (clear_other s (by decide) (by decide)).trans h.bits.send
  · exact (clear_other s (by decide) (by decide)).trans h.bits.receive
  · have hnina : s.bit 0 = true := h.ready
    have hgone : (s.withRt (coEventGroupClear s.rt spiEvents eventNinaRtt)).bit 0 = false :=
      clear_bit s (by decide)
    change s.rt.queue.countP isNina + (if (s.withRt (coEventGroupClear s.rt spiEvents
      eventNinaRtt)).bit 0 = true then 1 else 0) < edges s
    rw [edges, hgone, hnina]
    exact Nat.lt_succ_self _

theorem step9 (h : LinkInv .running W (.step .step9) l s) :
    ∃ t past W' l', cpxSpiTask config s .step9 = .ok t ∧
      LinkInv (.event spiDone) W' (.phase .head past) l' t ∧ edges t = edges s := by
  obtain ⟨-, -, hquiet⟩ := h.control
  exact runPhase config h.rt h.fn hquiet (fun _ => trivial) h.bits
    (h.agrees.moved rfl rfl rfl rfl (by simp)) h.runs h.starts

theorem step10 (h : LinkInv .running W (.step .step10) l s) :
    ∃ t past W' l', cpxSpiTask config s .step10 = .ok t ∧
      LinkInv (.event spiDone) W' (.phase .tail past) l' t ∧ edges t = edges s := by
  obtain ⟨-, -, hquiet⟩ := h.control
  exact runPhase config h.rt h.fn hquiet (fun _ => trivial) h.bits
    (h.agrees.moved rfl rfl rfl rfl (by simp)) h.runs h.starts

/-- Step 11 finishes the send request of the transfer, if there is one. -/
theorem step11 (h : LinkInv .running W (.step .step11) l s) :
    ∃ t l', cpxSpiTask config s .step11 = .ok t ∧ LinkInv .running W (.step .step12) l' t ∧
      edges t = edges s := by
  obtain ⟨-, -, hquiet⟩ := h.control
  obtain ⟨h1, h2, h3, h4, -, h6, -⟩ := h.agrees
  obtain ⟨x, hx, hleft, hr, hs⟩ := h6 _ rfl
  have hcarried := ((link_accounts h.runs).transfer x hx).2
  change x.send.map Prod.fst = s.sendReq at hs
  rw [cpxSpiTask, notifySender, ← hs]
  cases hsend : x.send with
  | none =>
    refine ⟨s.goTo (some .step12), l, rfl, h.move rfl rfl rfl rfl rfl trivial
      (.under h1 h2 h3 h4 hx (congrArg some hleft.symm) hr ?_ (by simp)), rfl⟩
    rw [hsend]
    rfl
  | some y =>
    have hlink := hcarried y hsend
    rw [h2 y hlink]
    refine ⟨_, ⟨none, l.receive, some ⟨none, x.receive, []⟩⟩, rfl,
      ⟨(h.rt.push _).groupClear _ _, h.fn, ⟨rfl, rfl, hquiet.inFlight, ?_⟩, trivial,
      ⟨?_, ?_⟩, .under rfl (by simp) h3 h4 rfl rfl hr rfl (by simp),
      h.runs.step (.sendDone hx hsend hleft), h.starts.concat (by simp)⟩, edges_congr ?_ rfl rfl⟩
    · exact (callbacks_pushOther _).trans hquiet.callbacks
    · exact clear_bit (s.withRt (piTaskPush s.rt (.other (.user y.2)))) (by decide)
    · exact (clear_other (s.withRt (piTaskPush s.rt (.other (.user y.2)))) (by decide)
        (by decide)).trans h.bits.receive
    · exact clear_other (s.withRt (piTaskPush s.rt (.other (.user y.2)))) (by decide) (by decide)

/-- Step 12 finishes its receive request. -/
theorem step12 (h : LinkInv .running W (.step .step12) l s) :
    ∃ t l', cpxSpiTask config s .step12 = .ok t ∧ LinkInv .running W (.step .step1) l' t ∧
      edges t = edges s := by
  obtain ⟨-, -, hquiet⟩ := h.control
  obtain ⟨h1, h2, h3, h4, -, h6, -⟩ := h.agrees
  obtain ⟨x, hx, hleft, hr, hs⟩ := h6 _ rfl
  have hlink := ((link_accounts h.runs).transfer x hx).1
  have hnone : x.send = none := Option.map_eq_none_iff.mp hs
  rw [cpxSpiTask, notifyReceiver, hr, h4 _ hlink]
  refine ⟨_, ⟨l.send, none, none⟩, rfl, ⟨(h.rt.push _).groupClear _ _, h.fn,
    ⟨rfl, rfl, hquiet.inFlight, ?_⟩, trivial, ⟨?_, ?_⟩,
    ⟨h1, h2, rfl, by simp, fun _ => rfl, by simp [Place.left, LinkStep.left], by simp⟩,
    h.runs.step (.receiveDone hx hnone hleft), h.starts.concat (by simp)⟩, edges_congr ?_ rfl rfl⟩
  · exact (callbacks_pushOther _).trans hquiet.callbacks
  · exact (clear_other (s.withRt (piTaskPush s.rt (.other (.user x.receive.2)))) (by decide)
      (by decide)).trans h.bits.send
  · exact clear_bit (s.withRt (piTaskPush s.rt (.other (.user x.receive.2)))) (by decide)
  · exact clear_other (s.withRt (piTaskPush s.rt (.other (.user x.receive.2)))) (by decide)
      (by decide)

end LinkInv

end

end AiDeck.Cpx
