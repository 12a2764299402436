import AiDeck.Frontnet.Completions

/-! # The inference and the send -/
namespace AiDeck.Frontnet
open AiDeck.Lib AiDeck.Coroutine

variable {F : Type} [DecidableEq F] [Fintype F] {s : FrontnetSystem F} {v : FrontnetSchedule F}
  {r : InferenceState} {w : SendState F} {c : F → ConsumerState} {rt : FrontnetRt F}
  {q : List (Pending (Ctx F) Event F)}

omit [Fintype F] in
theorem Data.same {t : FrontnetSystem F} {v' : FrontnetSchedule F} {r' : InferenceState}
    {w' : SendState F} (h : Data s v r w)
    (hcallbacks : ∀ e, queuedCallbacks v' e = queuedCallbacks v e)
    (hpending : ∀ e, pending r' w' e = pending r w e)
    (hdone : ∀ e b, done? r' w' e = some b → v'.eventDone e = b)
    (hnetwork : t.network = r'.network t.inferenceFrame) (huart : t.uart = r'.uart)
    (hcpx : t.cpx = w'.cpx) : Data t v' r' w' :=
  ⟨fun e => (hcallbacks e).trans ((h.callbacks e).trans (hpending e).symm), hdone, hnetwork, huart,
    hcpx⟩

/-! ## Who waits for what -/

omit [Fintype F] in
theorem position_event_networkDone {d : Ctx F}
    (h : (position r w c d).event? = some .networkDone) : d = .inference := by
  cases d with
  | inference => rfl
  | consumer f =>
    change (c f).position.event? = _ at h
    cases hc : c f <;> rw [hc] at h <;> cases h
  | send f =>
    change (w.position f).event? = _ at h
    unfold SendState.position at h
    split at h
    · cases w <;> cases h
    · cases h

omit [Fintype F] in
theorem position_event_cpxDone {d : Ctx F} (h : (position r w c d).event? = some .cpxDone) :
    ∃ f, d = .send f ∧ w.frame? = some f := by
  cases d with
  | inference =>
    change r.position.event? = _ at h
    cases r <;> cases h
  | consumer f =>
    change (c f).position.event? = _ at h
    cases hc : c f <;> rw [hc] at h <;> cases h
  | send f =>
    change (w.position f).event? = _ at h
    unfold SendState.position at h
    split at h
    · next hframe => exact ⟨f, rfl, hframe⟩
    · cases h

/-! ## inference_task -/

/-- The inference runs up to a wait for `network_done`. -/
theorem Base.waitNetwork (h : Base rt v (Function.update (position r w c) .inference .running))
    {n : Nat} (hn : n ∈ inferenceTaskFn.lines) :
    ∃ rt', coWait (coEventInit rt .networkDone) .inference n .networkDone = .ok rt' ∧
      Base rt' ((v.init .networkDone).wait .inference n .networkDone)
        (Function.update (position r w c) .inference (.waiting (.line n) .networkDone)) := by
  have hinit := h.init (e := .networkDone) (by
    intro d hd
    by_cases hi : d = .inference
    · rw [hi, Function.update_self] at hd
      cases hd
    · rw [Function.update_of_ne hi] at hd
      exact absurd (position_event_networkDone hd) hi)
  obtain ⟨rt', hok, hbase⟩ := hinit.wait (Function.update_self ..) hn .networkDone
  refine ⟨rt', hok, ?_⟩
  have hdone : (v.init .networkDone).eventDone .networkDone = false := by simp
  rw [hdone, Function.update_idem] at hbase
  exact hbase

/-- The inference starts what it waits for: the network, or the UART. -/
theorem inferenceWait_invariant (r' : InferenceState) {n : Nat} (hn : n ∈ inferenceTaskFn.lines)
    (hdata : Data s v r w) (hprotocol : Protocol s v r w c)
    (hhistory : History s.log r w c s.inferenceFrame) (hq : v.queue = .resume .inference :: q)
    (hrun : Base rt (v.run .inference q) (Function.update (position r w c) .inference .running))
    (hr' : r' = .reading ∨ r' = .sending)
    (hposition : r'.position = .waiting (.line n) .networkDone)
    (hr : r ≠ .none ∧ r ≠ .done) (hpending : ∀ e, pending r' w e = pending r w e)
    (hdone : ∀ e, done? r' w e = done? r w e)
    (hsame : r'.unread = r.unread ∧ r'.live = r.live) :
    ∃ t, ({ s with
        network := r'.network s.inferenceFrame
        uart := r'.uart }.withRt (coEventInit rt .networkDone)).wait .inference n .networkDone =
          .ok t ∧ FrontnetInvariant t := by
  obtain ⟨rt', hok, hbase⟩ := hrun.waitNetwork hn
  have hhome : ∀ f, (((v.run .inference q).init .networkDone).wait .inference n
      .networkDone).home (.consumer f) = v.home (.consumer f) := by
    intro f
    simp [Schedule.wait_home]
  refine ⟨_, FrontnetSystem.wait_eq hok, _, r', w, c, hbase.of_eq ?_,
    hdata.same ?_ hpending ?_ rfl rfl hdata.cpx,
    hprotocol.inference hr.1 hr.2 ?_ (fun hunread => hsame.1 ▸ hunread) rfl rfl ?_ ?_ ?_,
    hhistory.of_eq (fun _ => rfl) rfl hsame.1 hsame.2⟩
  · intro d
    cases d with
    | inference => exact (Function.update_self ..).trans hposition.symm
    | consumer f | send f => rfl
  · intro e
    rw [queuedCallbacks_wait]
    exact queuedCallbacks_run v .inference e q hq
  · intro e b hb
    have hold := hdata.done e b (hdone e ▸ hb)
    have hne : e ≠ .networkDone := by
      rintro rfl
      cases hb
    simpa [hne] using hold
  · rcases hr' with rfl | rfl <;> simp
  · intro f hf
    rw [hhome, hf]
  · intro _ f hf
    rw [hhome, hf]
  · rintro rfl
    rcases hr' with hr' | hr' <;> cases hr'

omit [Fintype F] in
/-- The inference returns. -/
theorem inferenceReturn_invariant (hbase : Base s.rt v (position .finishing w c))
    (hdata : Data s v .finishing w) (hprotocol : Protocol s v .finishing w c)
    (hhistory : History s.log .finishing w c s.inferenceFrame)
    (hq : v.queue = .resume .inference :: q)
    (hrun : Base rt (v.run .inference q)
      (Function.update (position .finishing w c) .inference .running)) :
    FrontnetInvariant ((s.withRt (coReturn rt .inference)).mark .inferred) := by
  have hret := hrun.ret (d := .inference) (Function.update_self ..)
  rw [Function.update_idem] at hret
  have hdoneTask : (v.run .inference q).doneTask .inference = some (.event .inferenceDone) :=
    (hbase.contexts .inference).doneTask (by simp [position, InferenceState.position])
  refine ⟨_, .returned, w, c, hret.of_eq ?_,
    ⟨?_, hdata.done, hdata.network, hdata.uart, hdata.cpx⟩,
    hprotocol.inference (by simp) (by simp) (by simp) (fun hr => by cases hr) rfl rfl ?_
      (fun hr => by cases hr) (fun hr => by cases hr),
    hhistory.concat (m := .inferred) trivial (fun f => by simp) (fun f => ?_) rfl
      (by simp [Mark.isSend, Mark.isSent])⟩
  · intro d
    cases d <;> rfl
  · intro e
    rw [queuedCallbacks_ret _ _ _ hdoneTask, queuedCallbacks_run v .inference e q hq,
      hdata.callbacks e]
    cases e <;> rfl
  · intro f hf
    simp [hf]
  · simp [owesRead, InferenceState.unread]

theorem inferenceTask_invariant (h : FrontnetInvariant s)
    (hq : s.rt.queue = .resume .inference :: q) :
    ∃ t, inferenceTask (s.withRt (s.rt.dequeue q)) = .ok t ∧ FrontnetInvariant t := by
  obtain ⟨v, r, w, c, hbase, hdata, hprotocol, hhistory⟩ := h
  replace hq : v.queue = .resume .inference :: q := hbase.models.queue ▸ hq
  obtain ⟨rt, x, hok, hpoint, hx, hrun⟩ := hbase.begin_ok hq
  have hx : r.position = .queued x ∨ ∃ e, r.position = .either x e := hx
  have hx : r.position = .queued x := by
    rcases hx with hx | ⟨e, hx⟩
    · exact hx
    · cases r <;> cases hx
  unfold inferenceTask
  show ∃ t, (coFnBegin (s.rt.dequeue q) .inference >>= _) = .ok t ∧ _
  rw [hok]
  cases r with
  | starting =>
    obtain rfl : ResumePoint.start = x := Position.queued.inj hx
    have hwait := inferenceWait_invariant .reading (n := 147) (by decide) hdata hprotocol hhistory
      hq hrun (.inl rfl) rfl (by decide) (fun e => by cases e <;> rfl)
      (fun e => by cases e <;> rfl) (by decide)
    rw [show InferenceState.reading.uart = s.uart from hdata.uart.symm] at hwait
    exact hwait
  | dequantizing =>
    obtain rfl : ResumePoint.line 147 = x := Position.queued.inj hx
    have hwait := inferenceWait_invariant .sending (n := 161) (by decide) hdata hprotocol hhistory
      hq hrun (.inr rfl) rfl (by decide) (fun e => by cases e <;> rfl)
      (fun e => by cases e <;> rfl) (by decide)
    rw [show InferenceState.sending.network s.inferenceFrame = s.network from
      hdata.network.symm] at hwait
    exact hwait
  | finishing =>
    obtain rfl : ResumePoint.line 161 = x := Position.queued.inj hx
    have hreturn : FrontnetInvariant ((s.withRt (coReturn rt .inference)).mark .inferred) :=
      inferenceReturn_invariant hbase hdata hprotocol hhistory hq hrun
    exact ⟨_, rfl, hreturn⟩
  | _ => cases hx

/-! ## streamer_send_task -/

/-- `streamer_send_task` is about to run on the frame. -/
def SendState.Resumes (w : SendState F) (f : F) : Prop := w = .starting f ∨ w = .continuing f

namespace SendState.Resumes

variable {f : F}

omit [DecidableEq F] [Fintype F] in
theorem frame (h : w.Resumes f) : w.frame? = some f := by
  rcases h with rfl | rfl <;> rfl

omit [DecidableEq F] [Fintype F] in
theorem busy (h : w.Resumes f) : w.busy? = some f := by
  rcases h with rfl | rfl <;> rfl

omit [DecidableEq F] [Fintype F] in
theorem ne_none (h : w.Resumes f) : w ≠ .none := by
  rcases h with rfl | rfl <;> simp

omit [DecidableEq F] [Fintype F] in
theorem pending_eq (h : w.Resumes f) (r : InferenceState) (e : Event) :
    pending r (.sending f) e = pending r w e := by
  rcases h with rfl | rfl <;> cases e <;> rfl

omit [DecidableEq F] [Fintype F] in
theorem done_eq (h : w.Resumes f) (r : InferenceState) (e : Event) :
    done? r (.sending f) e = done? r w e := by
  rcases h with rfl | rfl <;> cases e <;> rfl

omit [Fintype F] in
theorem position_ne_idle (h : w.Resumes f) : w.position f ≠ .idle := by
  rcases h with rfl | rfl <;> simp [SendState.position, SendState.frame?, SendState.place]

end SendState.Resumes

omit [Fintype F] in
/-- Where the contexts are when that of the send has moved. -/
theorem position_resumed {f : F} (h : w.Resumes f) {w' : SendState F} {p : Position}
    (hself : w'.position f = p) (hother : ∀ g, g ≠ f → w'.position g = .idle) (d : Ctx F) :
    Function.update (position r w c) (.send f) p d = position r w' c d := by
  cases d with
  | consumer g => rfl
  | inference => rfl
  | send g =>
    by_cases hg : g = f
    · subst hg
      rw [Function.update_self]
      exact hself.symm
    · rw [Function.update_of_ne (by simpa using hg)]
      refine Eq.trans ?_ (hother g hg).symm
      show w.position g = .idle
      unfold SendState.position
      rw [h.frame, if_neg]
      simpa using fun heq => hg heq.symm

omit [DecidableEq F] [Fintype F] in
/-- What the task queues comes behind what was in the queue. -/
theorem precedes_behind {d : Ctx F} {x y : Pending (Ctx F) Event F}
    {l : List (Pending (Ctx F) Event F)} (hq : v.queue = .resume d :: q)
    (h : Precedes v.queue x y) (hx : x ≠ .resume d) (hy : y ∉ l) : Precedes (q ++ l) x y := by
  rw [hq] at h
  exact (h.tail hx).append hy

/-- The send goes on with a packet. -/
theorem sendWait_invariant {f : F} (hdata : Data s v r w) (hprotocol : Protocol s v r w c)
    (hhistory : History s.log r w c s.inferenceFrame) (hq : v.queue = .resume (.send f) :: q)
    (hrun : Base rt (v.run (.send f) q) (Function.update (position r w c) (.send f) .running))
    (hw : w.Resumes f) (n : Int) (packetLength : UInt16) :
    ∃ t, ({ s with remainingLength := n, packetLength := packetLength, cpx := true }.withRt
        (coEventInit rt .cpxDone)).wait (.send f) 271 .cpxDone = .ok t ∧
      FrontnetInvariant t := by
  have hinit := hrun.init (e := .cpxDone) (by
    intro d hd
    by_cases hs : d = .send f
    · rw [hs, Function.update_self] at hd
      cases hd
    · rw [Function.update_of_ne hs] at hd
      obtain ⟨g, rfl, hg⟩ := position_event_cpxDone hd
      rw [hw.frame] at hg
      exact absurd (congrArg _ (Option.some.inj hg).symm) hs)
  obtain ⟨rt', hok, hbase⟩ :=
    hinit.wait (d := .send f) (Function.update_self ..) (List.mem_singleton_self 271) .cpxDone
  have hopen : ((v.run (.send f) q).init .cpxDone).eventDone .cpxDone = false := by simp
  rw [hopen, Function.update_idem] at hbase
  have hhome : ∀ g, (((v.run (.send f) q).init .cpxDone).wait (.send f) 271 .cpxDone).home
      (.consumer g) = v.home (.consumer g) := by
    intro g
    simp [Schedule.wait_home]
  have hqueue : (((v.run (.send f) q).init .cpxDone).wait (.send f) 271 .cpxDone).queue =
      q ++ [] := by
    rw [Schedule.wait_queue, hopen]
    rfl
  have hself : (SendState.sending f).position f = .waiting (.line 271) .cpxDone := if_pos rfl
  have hother : ∀ g, g ≠ f → (SendState.sending f).position g = .idle := by
    intro g hg
    refine if_neg ?_
    simpa [SendState.frame?] using fun heq => hg heq.symm
  refine ⟨_, FrontnetSystem.wait_eq hok, _, r, .sending f, c,
    hbase.of_eq (position_resumed hw hself hother),
    hdata.same ?_ (hw.pending_eq r) ?_ hdata.network hdata.uart rfl,
    hprotocol.send hw.ne_none (by simp) (fun g hg => hw.busy.trans hg) rfl rfl (fun g _ => hhome g)
      (fun g hg => (hhome g).trans hg) ?_ ?_,
    hhistory.of_eq (fun _ => rfl) hw.frame.symm rfl rfl⟩
  · intro e
    rw [queuedCallbacks_wait]
    exact queuedCallbacks_run v (.send f) e q hq
  · intro e b hb
    have hold := hdata.done e b (hw.done_eq r e ▸ hb)
    have hne : e ≠ .cpxDone := by
      rintro rfl
      cases hb
    simpa [hne] using hold
  · intro g g' _ hprecedes
    rw [hqueue]
    exact precedes_behind hq hprecedes (by simp) (by simp)
  · intro horder
    rw [hqueue]
    exact precedes_behind hq horder (by simp) (by simp)

omit [Fintype F] in
/-- The send returns. -/
theorem sendReturn_invariant {f : F} (hbase : Base s.rt v (position r w c)) (hdata : Data s v r w)
    (hprotocol : Protocol s v r w c) (hhistory : History s.log r w c s.inferenceFrame)
    (hq : v.queue = .resume (.send f) :: q)
    (hrun : Base rt (v.run (.send f) q) (Function.update (position r w c) (.send f) .running))
    (hw : w.Resumes f) (n : Int) :
    FrontnetInvariant
      (({ s with remainingLength := n }.withRt (coReturn rt (.send f))).mark (.sent f)) := by
  have hret := hrun.ret (d := .send f) (Function.update_self ..)
  rw [Function.update_idem] at hret
  have hdoneTask : (v.run (.send f) q).doneTask (.send f) = some (.event .streamerTxDone) :=
    (hbase.contexts (.send f)).doneTask hw.position_ne_idle
  have hhome : ∀ g, ((v.run (.send f) q).ret (.send f)).home (.consumer g) =
      v.home (.consumer g) := by
    intro g
    simp
  have hqueue : ((v.run (.send f) q).ret (.send f)).queue =
      q ++ [.task (.event .streamerTxDone)] := by
    rw [Schedule.ret_queue, hdoneTask]
    rfl
  have hearly : (c f).early = false := by
    rw [(hprotocol.sending f hw.busy).1]
    rfl
  have hreturned : (SendState.returned f).frame? = none := rfl
  have hhistory' : History (s.log ++ [.sent f]) r (.returned f) c s.inferenceFrame := by
    refine hhistory.concat trivial ?_ (fun g => by simp) rfl
      (by simp [hw.frame, hreturned, Mark.isSend, Mark.isSent])
    intro g
    unfold owesSend
    by_cases hg : f = g
    · subst hg
      simp [hw.frame, hearly, hreturned]
    · simp [hw.frame, hg, hreturned]
  refine ⟨_, r, .returned f, c, hret.of_eq (position_resumed hw rfl fun _ _ => rfl),
    ⟨?_, ?_, hdata.network, hdata.uart, ?_⟩,
    hprotocol.send hw.ne_none (by simp) (fun g hg => hw.busy.trans hg) rfl rfl (fun g _ => hhome g)
      (fun g hg => (hhome g).trans hg) ?_ ?_, hhistory'⟩
  · intro e
    rw [queuedCallbacks_ret _ _ _ hdoneTask, queuedCallbacks_run v (.send f) e q hq,
      hdata.callbacks e, ← hw.pending_eq]
    cases e <;> rfl
  · intro e b hb
    exact hdata.done e b (hw.done_eq r e ▸ hb)
  · exact hdata.cpx.trans (by rcases hw with rfl | rfl <;> rfl)
  · intro g g' _ hprecedes
    rw [hqueue]
    exact precedes_behind hq hprecedes (by simp) (by simp)
  · intro horder
    rw [hqueue]
    exact precedes_behind hq horder (by simp) (by simp)

/-- The send goes on with a packet or returns. -/
theorem sendPacket_invariant {f : F} (hbase : Base s.rt v (position r w c)) (hdata : Data s v r w)
    (hprotocol : Protocol s v r w c) (hhistory : History s.log r w c s.inferenceFrame)
    (hq : v.queue = .resume (.send f) :: q)
    (hrun : Base rt (v.run (.send f) q) (Function.update (position r w c) (.send f) .running))
    (hw : w.Resumes f) (maxTailLength : Int → Nat) (n : Int) :
    ∃ t, sendPacket maxTailLength ({ s with remainingLength := n }.withRt rt) f = .ok t ∧
      FrontnetInvariant t := by
  by_cases hn : n > 0
  · obtain ⟨t, hok, ht⟩ := sendWait_invariant hdata hprotocol hhistory hq hrun hw n
      (Streamer.packetLength n (maxTailLength n))
    exact ⟨t, (if_pos hn).trans hok, ht⟩
  · have hreturn := sendReturn_invariant hbase hdata hprotocol hhistory hq hrun hw n
    exact ⟨_, (if_neg hn).trans rfl, hreturn⟩

theorem streamerSendTask_invariant (h : FrontnetInvariant s) {f : F}
    (hq : s.rt.queue = .resume (.send f) :: q) (frameSize : Nat) (maxTailLength : Int → Nat) :
    ∃ t, streamerSendTask frameSize maxTailLength (s.withRt (s.rt.dequeue q)) f = .ok t ∧
      FrontnetInvariant t := by
  obtain ⟨v, r, w, c, hbase, hdata, hprotocol, hhistory⟩ := h
  replace hq : v.queue = .resume (.send f) :: q := hbase.models.queue ▸ hq
  obtain ⟨rt, x, hok, hpoint, hx, hrun⟩ := hbase.begin_ok hq
  have hw : w.Resumes f := by
    have hx : w.position f = .queued x ∨ ∃ e, w.position f = .either x e := hx
    unfold SendState.position at hx
    split at hx
    · next hframe =>
      cases w with
      | starting g => exact .inl (congrArg _ (Option.some.inj hframe))
      | continuing g => exact .inr (congrArg _ (Option.some.inj hframe))
      | _ => rcases hx with hx | ⟨e, hx⟩ <;> cases hx
    · rcases hx with hx | ⟨e, hx⟩ <;> cases hx
  have hpacket := sendPacket_invariant hbase hdata hprotocol hhistory hq hrun hw maxTailLength
  unfold streamerSendTask
  show ∃ t, (coFnBegin (s.rt.dequeue q) (.send f) >>= _) = Except.ok t ∧ _
  rw [hok]
  show ∃ t, (if x = .line 271 then _ else _) = Except.ok t ∧ _
  split
  · exact hpacket _
  · exact hpacket _

end AiDeck.Frontnet
