import AiDeck.Cpx.LinkInvariant

/-! # The steps keep the place

First what happens around the task, then the scheduler, then the twelve steps: each is
possible at its place and leads to the next one, and the abstract link follows. -/
namespace AiDeck.Cpx
open AiDeck.Coroutine AiDeck.Lib

section
variable {S R Task : Type} {s : LinkSystem S R Task} {home home' : Home Unit Unit}
  {W W' : Unit → List Unit} {place : Place} {l : Link S R Task}

namespace LinkInv

/-! ## Around the task -/

/-- Only the runtime changes, and no bit of a request. -/
theorem withRt {rt : Runtime Unit Unit Unit (LinkPiTask Task)} (h : LinkInv home W place l s)
    (hrt : Inv (fun _ => home') W' rt) (hfn : rt.fn = s.rt.fn)
    (hcontrol : Control home' (s.withRt rt) place) (hready : Ready home' (s.withRt rt) place)
    (hsend : (s.withRt rt).bit 1 = s.bit 1) (hreceive : (s.withRt rt).bit 2 = s.bit 2) :
    LinkInv home' W' place l (s.withRt rt) := by
  obtain ⟨h1, h2, h3, h4, h5, h6, h7⟩ := h.agrees
  exact ⟨hrt, (congrFun hfn cpxSpiCtx).trans h.fn, hcontrol, hready,
    ⟨hsend.trans h.bits.send, hreceive.trans h.bits.receive⟩, ⟨h1, h2, h3, h4, h5, h6, h7⟩,
    h.runs, h.starts⟩

theorem pushOther (h : LinkInv home W place l s) (t : LinkPiTask Task) :
    LinkInv home W place l (s.withRt (piTaskPush s.rt (.other t))) := by
  refine h.withRt (h.rt.push _) rfl ?_ (h.ready.mono (fun _ hi => hi) rfl) rfl rfl
  exact h.control.congr rfl rfl rfl (callbacks_pushOther t) rfl rfl rfl

/-- A place at which the task has no control is no step. -/
theorem ne_step (h : LinkInv home W place l s) (hstep : s.step = none) (n : LinkStep) :
    place ≠ .step n := by
  rintro rfl
  rw [h.control.1] at hstep
  cases hstep

theorem send_none (h : LinkInv home W place l s) (hreq : s.cpxSpi.sendReq = none) :
    l.send = none := by
  have hsend := h.agrees.send
  rw [hreq] at hsend
  exact Option.map_eq_none_iff.mp hsend.symm

theorem receive_none (h : LinkInv home W place l s) (hreq : s.cpxSpi.receiveReq = none) :
    l.receive = none := by
  have hreceive := h.agrees.receive
  rw [hreq] at hreceive
  exact Option.map_eq_none_iff.mp hreceive.symm

theorem send [DecidableEq S] [DecidableEq R] (config : LinkConfig)
    (h : LinkInv home W place l s) (hstep : s.step = none) (hreq : s.cpxSpi.sendReq = none)
    (req : S) (object : CpxSpiSendReq) (t : Task) :
    ∃ u home', (LinkAction.send req object t).run config s = .ok u ∧
      LinkInv home' W place ⟨some (req, t), l.receive, l.transfer⟩ u := by
  obtain ⟨home', hrt, hcontrol, hready, -⟩ := h.control.set h.rt h.ready eventSend
  obtain ⟨-, h2, h3, h4, h5, h6, -⟩ := h.agrees
  have hok : cpxSpiSendAsync s.rt spiEvents s.cpxSpi req t =
      .ok (coEventGroupSet s.rt spiEvents eventSend, s.cpxSpi.withSend req t) :=
    if_neg (by simp [hreq])
  refine ⟨(((s.fillSend req object).withRt (coEventGroupSet s.rt spiEvents eventSend)).withCpxSpi
      (s.cpxSpi.withSend req t)).record (.send req t),
    home', by rw [LinkAction.run, hok]; rfl, hrt, ?_, ?_, ?_, ⟨?_, ?_⟩,
    ⟨rfl, ?_, h3, h4, h5, h6, fun he => absurd he (h.ne_step hstep _)⟩, ?_, ?_⟩
  · exact (congrFun (coEventGroupSet_fn s.rt spiEvents eventSend) cpxSpiCtx).trans h.fn
  · exact hcontrol.congr rfl rfl rfl rfl rfl rfl rfl
  · exact hready.mono (fun _ hi => hi) rfl
  · exact set_bit s (by decide)
  · exact (set_other s (by decide)).trans h.bits.receive
  · intro x hx
    cases hx
    rfl
  · exact h.runs.step (.send req _ (h.send_none hreq))
  · exact h.starts.concat (by simp)

theorem receive [DecidableEq S] [DecidableEq R] (config : LinkConfig)
    (h : LinkInv home W place l s) (hstep : s.step = none) (hreq : s.cpxSpi.receiveReq = none)
    (req : R) {object : CpxSpiReceiveReq} (hsize : object.bufferSize.toNat = cpxSpiMtu) (t : Task) :
    ∃ u home', (LinkAction.receive req object t).run config s = .ok u ∧
      LinkInv home' W place ⟨l.send, some (req, t), l.transfer⟩ u := by
  obtain ⟨home', hrt, hcontrol, hready, -⟩ := h.control.set h.rt h.ready eventReceive
  obtain ⟨h1, h2, -, -, h5, h6, -⟩ := h.agrees
  have hok : cpxSpiReceiveAsync s.rt spiEvents s.cpxSpi req object.bufferSize t =
      .ok (coEventGroupSet s.rt spiEvents eventReceive,
        s.cpxSpi.withReceive req t) :=
    (if_neg (by simp [hreq])).trans (if_neg (not_not_intro hsize))
  refine ⟨(((s.fillReceive req object).withRt (coEventGroupSet s.rt spiEvents
      eventReceive)).withCpxSpi (s.cpxSpi.withReceive req t)).record
        (.receive req t),
    home', by rw [LinkAction.run, hok]; rfl, hrt, ?_, ?_, ?_, ⟨?_, ?_⟩,
    ⟨h1, h2, rfl, ?_, h5, h6, fun he => absurd he (h.ne_step hstep _)⟩, ?_, ?_⟩
  · exact (congrFun (coEventGroupSet_fn s.rt spiEvents eventReceive) cpxSpiCtx).trans h.fn
  · exact hcontrol.congr rfl rfl rfl rfl rfl rfl rfl
  · exact hready.mono (fun _ hi => hi) rfl
  · exact (set_other s (by decide)).trans h.bits.send
  · exact set_bit s (by decide)
  · intro x hx
    cases hx
    rfl
  · exact h.runs.step (.receive req _ (h.receive_none hreq))
  · exact h.starts.concat (by simp)

theorem storeReceived_eq [DecidableEq R] (s : LinkSystem S R Task) (header : CpxSpiHeader)
    (p : Phase) : ∃ f, storeReceived s header p = s.withReceiveReqs f := by
  cases p with
  | header => cases hr : s.receiveReq with
    | some r =>
      refine ⟨Function.update s.receiveReqs r { s.receiveReqs r with header := header }, ?_⟩
      rw [storeReceived, hr]
      rfl
    | none => exact ⟨s.receiveReqs, by rw [storeReceived, hr]; rfl⟩
  | head => exact ⟨s.receiveReqs, rfl⟩
  | tail => exact ⟨s.receiveReqs, rfl⟩

/-- A transfer is in flight behind the phase it belongs to. -/
theorem flying (h : LinkInv home W place l s) (hflight : s.inFlight ≠ none) :
    ∃ p x, place = .phase p false ∧ s.inFlight = some (p, x) := by
  have hquiet : ¬ Quiet s := fun hq => hflight hq.inFlight
  have hcontrol := h.control
  cases place with
  | start => exact absurd hcontrol.2.2.1 hquiet
  | group w => exact absurd hcontrol.2.2.1 hquiet
  | phase p past => cases past with
    | false =>
      obtain ⟨-, -, ⟨x, hx⟩, -⟩ := hcontrol
      exact ⟨p, x, rfl, hx⟩
    | true => exact absurd hcontrol.2.2.1 hflight
  | step n => exact absurd hcontrol.2.2 hquiet

/-- The end of a transfer: its phase is over. -/
theorem complete [DecidableEq R] (h : LinkInv home W place l s) (hflight : s.inFlight ≠ none)
    (header : CpxSpiHeader) :
    ∃ p l', place = .phase p false ∧ LinkInv home W (.phase p true) l' (endTransfer s header) := by
  obtain ⟨p, x, rfl, hx⟩ := h.flying hflight
  obtain ⟨hstep, hpoint, -, hcalls, hhome, hdone⟩ := h.control
  have ha := h.agrees
  obtain ⟨t, ht, hleft, hr, hs⟩ := ha.transfer _ rfl
  obtain ⟨f, hf⟩ := storeReceived_eq s header p
  refine ⟨p, ⟨l.send, l.receive, some ⟨t.send, t.receive, p.after⟩⟩, rfl, ?_⟩
  rw [endTransfer, hx]
  simp only [hf]
  refine ⟨h.rt.push _, h.fn, ⟨hstep, hpoint, rfl, Or.inr ⟨hhome, ?_, hdone⟩⟩, ?_,
    ⟨h.bits.send, h.bits.receive⟩, .under ha.send ha.sendDone ha.receive ha.receiveDone rfl rfl hr hs
      (by simp), ?_, h.starts.concat (by simp)⟩
  · exact callbacks_pushEvent.trans (congrArg (· + 1) hcalls)
  · have hready : Ready home s (.phase p true) := by
      have hbefore := h.ready
      cases p <;> exact hbefore
    exact hready.mono (fun _ hi => hi) rfl
  · exact h.runs.step (.ended ht hleft)

/-! ## The scheduler -/

variable {q : List (Pending Unit Unit (LinkPiTask Task))}

theorem user {t : Task} (h : LinkInv home W place l s)
    (hq : s.rt.queue = .task (.other (.user t)) :: q) :
    LinkInv home W place l (s.withRt (s.rt.dequeue q)) := by
  refine h.withRt (h.rt.other hq) rfl ?_ (h.ready.mono (fun _ hi => hi) rfl) rfl rfl
  exact h.control.congr rfl rfl rfl (callbacks_cons_other hq rfl).symm rfl rfl rfl

/-- `nina_rtt_callback` sets its bit and no other. -/
theorem nina (h : LinkInv home W place l s) (hq : s.rt.queue = .task (.other .ninaRtt) :: q) :
    ∃ home', LinkInv home' W place l (s.withRt (ninaRttCallback (s.rt.dequeue q))) ∧
      (home' = home ∧ (ninaRttCallback (s.rt.dequeue q)).queue = q ∨
        home' = .queued ∧ home = .group spiEvents ∧
          (ninaRttCallback (s.rt.dequeue q)).queue = q ++ [.resume cpxSpiCtx]) := by
  have hbefore : LinkInv home W place l (s.withRt (s.rt.dequeue q)) := by
    refine h.withRt (h.rt.other hq) rfl ?_ (h.ready.mono (fun _ hi => hi) rfl) rfl rfl
    exact h.control.congr rfl rfl rfl (callbacks_cons_other hq rfl).symm rfl rfl rfl
  obtain ⟨home', hrt, hcontrol, hready, hwoken⟩ :=
    hbefore.control.set hbefore.rt hbefore.ready eventNinaRtt
  refine ⟨home', hbefore.withRt hrt (coEventGroupSet_fn ..) hcontrol hready ?_ ?_, hwoken⟩
  · exact set_other (s.withRt (s.rt.dequeue q)) (by decide)
  · exact set_other (s.withRt (s.rt.dequeue q)) (by decide)

/-- A callback of `spi_done` is pending behind a phase that is over. -/
theorem waiting_over (h : LinkInv home W place l s) (hcalls : callbacks s.rt ≠ 0) :
    ∃ p, place = .phase p true ∧ home = .event spiDone ∧ callbacks s.rt = 1 := by
  have hquiet : ¬ Quiet s := fun hq => hcalls hq.callbacks
  have hcontrol := h.control
  cases place with
  | start => exact absurd hcontrol.2.2.1 hquiet
  | group w => exact absurd hcontrol.2.2.1 hquiet
  | phase p past => cases past with
    | false => exact absurd hcontrol.2.2.2.1 hcalls
    | true =>
      obtain ⟨-, -, -, ⟨-, hc⟩ | ⟨hhome, hc, -⟩⟩ := hcontrol
      · exact absurd hc hcalls
      · exact ⟨p, rfl, hhome, hc⟩
  | step n => exact absurd hcontrol.2.2 hquiet

/-- The callback of `spi_done` queues the task. -/
theorem callback {e : Unit} (h : LinkInv home W place l s)
    (hq : s.rt.queue = .task (.event e) :: q) :
    ∃ rt W' p, coEventCallback (s.rt.dequeueEvent e q) e = .ok rt ∧
      LinkInv .queued W' place l (s.withRt rt) ∧ place = .phase p true ∧ home = .event spiDone ∧
      rt.queue = q ++ (W e).map .resume ∧ rt.group = s.rt.group := by
  have hcount := callbacks_cons_event hq
  obtain ⟨p, rfl, rfl, hone⟩ := h.waiting_over (by omega)
  obtain ⟨hstep, hpoint, hflight, -⟩ := h.control
  obtain ⟨lists, hok, hrt⟩ := h.rt.callback hq
  have hmem : ∀ d : Unit, d ∈ W e := fun d => (h.rt.waiting e d).mpr rfl
  have hwake : wake (fun _ : Unit => (Home.event spiDone : Home Unit Unit)) (W e) =
      fun _ => .queued := by
    funext d
    exact if_pos (hmem d)
  rw [hwake] at hrt
  refine ⟨_, _, p, hok, h.withRt hrt rfl ⟨hstep, hpoint, hflight, Or.inl ⟨rfl, ?_⟩⟩ ?_ rfl rfl,
    rfl, rfl, rfl, rfl⟩
  · change (q ++ (W e).map Pending.resume).countP Pending.isCallback = 0
    rw [List.countP_append, List.countP_map]
    have hnone : (W e).countP (Pending.isCallback ∘ (Pending.resume : Unit → Pending Unit Unit
        (LinkPiTask Task))) = 0 := List.countP_eq_zero.mpr (by simp [Pending.isCallback])
    rw [hnone]
    omega
  · have hready := h.ready
    cases p <;> exact hready

/-- The `switch` finds the step behind the place. -/
theorem resumeAt_place (h : Control .queued s place) (t : LinkSystem S R Task) :
    ∃ e, resumeAt t (s.rt.resumePoint cpxSpiCtx) = (t.withEvents e).goTo (some place.next) := by
  cases place with
  | start =>
    rw [h.2.1]
    exact ⟨t.events, rfl⟩
  | group w =>
    rw [h.2.1]
    cases w <;> exact ⟨coEventGroupGet t.rt spiEvents t.events, rfl⟩
  | phase p past => cases past with
    | false => cases h.2.2.2.2.1
    | true =>
      rw [h.2.1]
      cases p <;> exact ⟨t.events, rfl⟩
  | step n => cases h.2.1

/-- What is known of the bits behind a place. -/
theorem ready_next (hcontrol : Control .queued s place) (h : Ready .queued s place) :
    Ready .running s (.step place.next) := by
  cases place with
  | start => trivial
  | group w => cases w with
    | anyone => exact h rfl
    | receiver => exact ⟨h.1, h.2 rfl⟩
    | nina => exact ⟨h.1, h.2.2 rfl⟩
  | phase p past => cases p with
    | header => exact h
    | head => trivial
    | tail => trivial
  | step n => cases hcontrol.2.1

/-- The transfer is where it was. -/
theorem agrees_next (hcontrol : Control .queued s place) (h : Agrees place l s) :
    Agrees (.step place.next) l s := by
  obtain ⟨h1, h2, h3, h4, h5, h6, -⟩ := h
  refine ⟨h1, h2, h3, h4, fun hleft => h5 ?_, fun left hleft => ?_, ?_⟩
  · cases place with
    | start => rfl
    | group w => rfl
    | phase p past => cases p <;> cases hleft
    | step n => cases hcontrol.2.1
  · have hbefore : place.left = some left ∧
        (Place.step place.next).carries s.sendReq = place.carries s.sendReq := by
      cases place with
      | start => cases hleft
      | group w => cases w <;> cases hleft
      | phase p past => cases past with
        | false => cases hcontrol.2.2.2.2.1
        | true => cases p <;> exact ⟨hleft, rfl⟩
      | step n => cases hcontrol.2.1
    rw [hbefore.2]
    exact h6 left hbefore.1
  · intro hstep
    refine absurd (Place.step.inj hstep) (place.next_ne fun n hn => ?_)
    subst hn
    cases hcontrol.2.1

theorem resume (h : LinkInv home W place l s) {c : Unit} (hq : s.rt.queue = .resume c :: q) :
    ∃ t, cpxSpiResume (s.withRt (s.rt.dequeue q)) = .ok t ∧
      LinkInv .running W (.step place.next) l t ∧ home = .queued ∧ t.rt.queue = q ∧
      t.rt.group = s.rt.group := by
  have hhome : home = .queued := (h.rt.queued c).mp (by
    rw [Runtime.resuming, hq]
    exact List.mem_cons_self)
  subst hhome
  have hcontrol := h.control
  obtain ⟨e, he⟩ := resumeAt_place hcontrol
    (s.withRt (coFnSuspend (recordResume (s.rt.dequeue q) c) c .running))
  have hrt := h.rt.resume hq
  rw [home_unit] at hrt
  have hquiet : Quiet s := by
    cases place with
    | start => exact hcontrol.2.2.1
    | group w => exact hcontrol.2.2.1
    | phase p past => cases past with
      | false => cases hcontrol.2.2.2.2.1
      | true =>
        obtain ⟨-, -, hflight, ⟨-, hc⟩ | ⟨hhome, -⟩⟩ := hcontrol
        · exact ⟨hflight, hc⟩
        · cases hhome
    | step n => cases hcontrol.2.1
  obtain ⟨h1, h2, h3, h4, h5, h6, h7⟩ := agrees_next hcontrol h.agrees
  have hfields := recordResume_eq (s.rt.dequeue q) c
  refine ⟨((s.withRt (coFnSuspend (recordResume (s.rt.dequeue q) c) c .running)).withEvents e).goTo
    (some place.next), ?_, ⟨hrt, ?_, ⟨rfl, rfl, hquiet.inFlight, ?_⟩, ?_, ?_,
      ⟨h1, h2, h3, h4, h5, h6, ?_⟩, h.runs, h.starts⟩, rfl, ?_, ?_⟩
  · have hbegin := cpxSpiResume_eq (s := s.withRt (s.rt.dequeue q)) (h.rt.begin_ok hq)
    exact hbegin.trans (congrArg Except.ok he)
  · change (recordResume (s.rt.dequeue q) c).fn cpxSpiCtx = _
    rw [hfields]
    exact h.fn
  · change callbacks (recordResume (s.rt.dequeue q) c) = 0
    rw [hfields]
    exact (callbacks_cons_other hq rfl).symm.trans hquiet.callbacks
  · refine (ready_next hcontrol h.ready).mono (fun i hi => ?_) rfl
    change ((recordResume (s.rt.dequeue q) c).group spiEvents).mask.getLsbD i = true
    rw [hfields]
    exact hi
  · constructor
    · change ((recordResume (s.rt.dequeue q) c).group spiEvents).mask.getLsbD 1 = _
      rw [hfields]
      exact h.bits.send
    · change ((recordResume (s.rt.dequeue q) c).group spiEvents).mask.getLsbD 2 = _
      rw [hfields]
      exact h.bits.receive
  · intro hstep
    refine absurd (Place.step.inj hstep) (place.next_ne fun n hn => ?_)
    subst hn
    cases hcontrol.2.1
  · change (recordResume (s.rt.dequeue q) c).queue = q
    rw [hfields]
    rfl
  · change (recordResume (s.rt.dequeue q) c).group = s.rt.group
    rw [hfields]
    rfl

end LinkInv

end

end AiDeck.Cpx
